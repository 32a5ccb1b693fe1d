import ShadePay.Committee
import ShadePay.Mpc.BatchHash
import ShadePay.Mpc.Coordinator
import ShadePay.Rfq.SwapTerms

/-!
# Signed batches

`verifySignedBatch` of `packages/mpc-crypto/src/committee.ts`, the third check of a committee's
signatures beside those of the two contracts: it compares public keys as texts, and leaves out the
contracts' check that there is a committee. `verifySignedBatch_iff` says that for the committee of a
list of keys the three accept the same signatures, except that without any key the off-chain check
accepts the empty list; `signed_batch_agreement` that two accepted batches of one id have the same
matches unless a third of the committee signs two.
-/

namespace ShadePay.Mpc

open Stellar Rfq

/-- `CommitteeNodeInfo`. -/
structure CommitteeNodeInfo where
  nodeId : String
  encryptionPubkey : String
  signingPubkey : String

/-- The public half of a `CommitteeNodeKeyPair`. -/
structure NodePublicKeys where
  nodeId : String
  encryptionPublicKey : BytesN 32
  signingPublicKey : BytesN 32

/-- `nodePublicInfo`. -/
def nodePublicInfo (kp : NodePublicKeys) : CommitteeNodeInfo where
  nodeId := kp.nodeId
  encryptionPubkey := String.ofList (Text.hex kp.encryptionPublicKey.bytes)
  signingPubkey := String.ofList (Text.hex kp.signingPublicKey.bytes)

/-- `Buffer.from(s, "hex")`. -/
def hexBytes (s : String) : List UInt8 := bufferFromHex s.toList

section
variable (ed : ℕ → List UInt8 → List UInt8 → Bool) (sha256 : List UInt8 → BitVec 256)

/-- `nacl.sign.detached.verify`, over the signature predicate of the contracts: it throws on a
signature or a key of another length. -/
def detachedVerify (msg sig publicKey : List UInt8) : Option Bool :=
  if sig.length = 64 ∧ publicKey.length = 32 then some (ed (Bytes.toNat publicKey) msg sig) else none

/-- `verifyNodeSignature`. -/
def verifyNodeSignature (batchId : String) (batch : List BatchMatch) (sig : NodeSignature) :
    Option Bool :=
  detachedVerify ed (hexBytes (computeBatchHash sha256 batchId batch)) (hexBytes sig.signature)
    (hexBytes sig.signingPubkey)

/-- The loop of `verifySignedBatch`: the number of signers, unless it returns `false` or throws. -/
def verifySignatures (batchId : String) (batch : List BatchMatch) (expectedPubkeys : List String) :
    List NodeSignature → List String → Option (Option ℕ)
  | [], seenSigners => some (some seenSigners.length)
  | sig :: sigs, seenSigners =>
      if sig.signingPubkey ∉ expectedPubkeys then some none
      else if sig.signingPubkey ∈ seenSigners then some none
      else match verifyNodeSignature ed sha256 batchId batch sig with
        | none => none
        | some false => some none
        | some true =>
            verifySignatures batchId batch expectedPubkeys sigs (seenSigners ++ [sig.signingPubkey])

/-- `verifySignedBatch`; `none` when it throws. -/
def verifySignedBatch (batchId : String) (batch : List BatchMatch) (signatures : List NodeSignature)
    (committee : List CommitteeNodeInfo) : Option Bool :=
  match verifySignatures ed sha256 batchId batch (committee.map (·.signingPubkey)) signatures [] with
  | none => none
  | some none => some false
  | some (some n) => some (decide (threshold committee.length ≤ n))

end

variable {ed : ℕ → List UInt8 → List UInt8 → Bool} {sha256 : List UInt8 → BitVec 256}
  {batchId : String} {batch : List BatchMatch} {signatures : List NodeSignature}

/-- The text of a key and the text of a signature over a batch are accepted. -/
def ValidText (ed : ℕ → List UInt8 → List UInt8 → Bool) (sha256 : List UInt8 → BitVec 256)
    (batchId : String) (batch : List BatchMatch) (pk sig : String) : Prop :=
  detachedVerify ed (hexBytes (computeBatchHash sha256 batchId batch)) (hexBytes sig) (hexBytes pk) =
    some true

/-- The loop accepts distinct signers of the committee, each with a valid signature. -/
theorem verifySignatures_eq {expected seen : List String} {n : ℕ} :
    verifySignatures ed sha256 batchId batch expected signatures seen = some (some n) ↔
      n = seen.length + signatures.length ∧ (signatures.map (·.signingPubkey)).Nodup ∧
        (∀ k ∈ signatures.map (·.signingPubkey), k ∉ seen) ∧
        (∀ k ∈ signatures.map (·.signingPubkey), k ∈ expected) ∧
        Signed (ValidText ed sha256 batchId batch) (signatures.map (·.signingPubkey))
          (signatures.map (·.signature)) := by
  induction signatures generalizing seen with
  | nil => simp [verifySignatures, Signed, @eq_comm _ n]
  | cons sig sigs ih =>
      simp only [verifySignatures, List.map_cons, List.nodup_cons, List.forall_mem_cons, Signed,
        List.length_cons]
      by_cases hmem : sig.signingPubkey ∈ expected
      · by_cases hseen : sig.signingPubkey ∈ seen
        · simp [hmem, hseen]
        · rw [if_neg (not_not.2 hmem), if_neg hseen]
          cases hv : verifyNodeSignature ed sha256 batchId batch sig with
          | none =>
              have : ¬ ValidText ed sha256 batchId batch sig.signingPubkey sig.signature := fun h => by
                rw [verifyNodeSignature, h] at hv
                cases hv
              simp [this]
          | some b =>
              have hb : ValidText ed sha256 batchId batch sig.signingPubkey sig.signature ↔ b = true := by
                rw [verifyNodeSignature] at hv
                rw [ValidText, hv, Option.some.injEq]
              cases b with
              | false => simp [hb]
              | true =>
                  simp only [ih, hb, List.length_append, List.length_singleton, List.mem_append,
                    List.mem_singleton, not_or, forall_and]
                  constructor
                  · rintro ⟨rfl, hd, ⟨hns, hnew⟩, hall, hsig⟩
                    exact ⟨by omega, ⟨fun h => hnew _ h rfl, hd⟩, ⟨hseen, hns⟩, ⟨hmem, hall⟩, trivial, hsig⟩
                  · rintro ⟨rfl, ⟨hnew, hd⟩, ⟨-, hns⟩, ⟨-, hall⟩, -, hsig⟩
                    exact ⟨by omega, hd, ⟨hns, fun k hk h => hnew (h ▸ hk)⟩, hall, hsig⟩
      · simp [hmem]

/-- What `verifySignedBatch` accepts. -/
theorem verifySignedBatch_eq_true {committee : List CommitteeNodeInfo} :
    verifySignedBatch ed sha256 batchId batch signatures committee = some true ↔
      threshold committee.length ≤ signatures.length ∧ (signatures.map (·.signingPubkey)).Nodup ∧
        (∀ k ∈ signatures.map (·.signingPubkey), k ∈ committee.map (·.signingPubkey)) ∧
        Signed (ValidText ed sha256 batchId batch) (signatures.map (·.signingPubkey))
          (signatures.map (·.signature)) := by
  have key := @verifySignatures_eq ed sha256 batchId batch signatures
    (committee.map (·.signingPubkey)) []
  rw [verifySignedBatch]
  cases hv : verifySignatures ed sha256 batchId batch (committee.map (·.signingPubkey)) signatures []
    with
  | none =>
      simp only [reduceCtorEq, false_iff]
      rintro ⟨-, hd, hm, hs⟩
      have := key.2 ⟨rfl, hd, by simp, hm, hs⟩
      rw [hv] at this
      cases this
  | some o =>
      cases o with
      | none =>
          simp only [Option.some.injEq, Bool.false_eq_true, false_iff]
          rintro ⟨-, hd, hm, hs⟩
          have := key.2 ⟨rfl, hd, by simp, hm, hs⟩
          rw [hv] at this
          cases this
      | some n =>
          obtain ⟨rfl, hd, -, hm, hs⟩ := key.1 hv
          simp only [List.length_nil, zero_add, Option.some.injEq, decide_eq_true_eq]
          exact ⟨fun hle => ⟨hle, hd, hm, hs⟩, fun h => h.1⟩

/-! ## The committee of a list of keys -/

/-- A key as text is read back. -/
theorem hexBytes_hex (bs : List UInt8) : hexBytes (String.ofList (Text.hex bs)) = bs := by
  rw [hexBytes, String.toList_ofList]
  exact bufferFromHex_of_spells (spells_hex bs)

/-- The text of a public key. -/
def keyText (k : BytesN 32) : String := String.ofList (Text.hex k.bytes)

/-- The text of a key determines it. -/
theorem keyText_injective : Function.Injective keyText := fun _ _ h =>
  BytesN.ext (Text.hex_injective (String.ofList_inj.1 h))

/-- The signed message is the hash as a word. -/
theorem hexBytes_batchHash : hexBytes (computeBatchHash sha256 batchId batch) =
    Bytes.ofNat 32 (sha256 (batchMessage batchId batch)).toNat := hexBytes_hex _

/-- A signature is valid off-chain when it has 64 bytes and the contracts take it. -/
theorem validText_key {k : BytesN 32} {sig : String} :
    ValidText ed sha256 batchId batch (keyText k) sig ↔ (hexBytes sig).length = 64 ∧
      ed k.toNat (Bytes.ofNat 32 (sha256 (batchMessage batchId batch)).toNat) (hexBytes sig) = true := by
  rw [ValidText, keyText, hexBytes_hex, hexBytes_batchHash, detachedVerify]
  by_cases hl : (hexBytes sig).length = 64
  · rw [if_pos ⟨hl, k.length_eq⟩]
    simp [hl, BytesN.toNat]
  · rw [if_neg fun h => hl h.1]
    simp [hl]

/-- Texts that are all texts of listed keys. -/
theorem exists_keys {kps : List NodePublicKeys} {texts : List String}
    (h : ∀ k ∈ texts, k ∈ (kps.map nodePublicInfo).map (·.signingPubkey)) :
    ∃ ks : List (BytesN 32), texts = ks.map keyText ∧ ∀ k ∈ ks, k ∈ kps.map (·.signingPublicKey) := by
  induction texts with
  | nil => exact ⟨[], rfl, by simp⟩
  | cons t texts ih =>
      obtain ⟨ht, hts⟩ := List.forall_mem_cons.1 h
      obtain ⟨ks, rfl, hks⟩ := ih hts
      simp only [List.map_map, List.mem_map, Function.comp_apply] at ht
      obtain ⟨kp, hkp, rfl⟩ := ht
      exact ⟨kp.signingPublicKey :: ks, rfl, List.forall_mem_cons.2 ⟨List.mem_map_of_mem hkp, hks⟩⟩

/-- The accepted batches of a committee that has keys are those a quorum of the keys has signed. -/
theorem verifySignedBatch_quorum {kps : List NodePublicKeys} (hne : kps ≠ []) :
    verifySignedBatch ed sha256 batchId batch signatures (kps.map nodePublicInfo) = some true ↔
      Quorum (ValidText ed sha256 batchId batch) ((kps.map nodePublicInfo).map (·.signingPubkey))
        (signatures.map (·.signingPubkey)) (signatures.map (·.signature)) := by
  rw [verifySignedBatch_eq_true, quorum_iff]
  simp only [List.length_map, threshold]
  have hpos : kps.length ≠ 0 := fun h => hne (List.length_eq_zero_iff.1 h)
  tauto

/-- **The three checks agree.** For the committee of a non-empty list of keys, `verifySignedBatch`
accepts signatures exactly when they come from keys of the list, have 64 bytes each, and the
contracts' `verifyThreshold` accepts these keys and signatures over the batch hash. Without keys it
accepts the empty list of signatures only, where the contracts accept nothing. -/
theorem verifySignedBatch_iff (ed : ℕ → List UInt8 → List UInt8 → Bool)
    (sha256 : List UInt8 → BitVec 256) (batchId : String) (batch : List BatchMatch)
    (signatures : List NodeSignature) (kps : List NodePublicKeys) :
    (kps ≠ [] → (verifySignedBatch ed sha256 batchId batch signatures (kps.map nodePublicInfo) =
        some true ↔ ∃ ks : List (BytesN 32), signatures.map (·.signingPubkey) = ks.map keyText ∧
          (∀ s ∈ signatures, (hexBytes s.signature).length = 64) ∧
          Evm.verifyThreshold ed (kps.map (·.signingPublicKey.toNat))
            (sha256 (batchMessage batchId batch)).toNat (ks.map (·.toNat))
            (signatures.map (hexBytes ·.signature)) = .ok ())) ∧
      (kps = [] → (verifySignedBatch ed sha256 batchId batch signatures (kps.map nodePublicInfo) =
        some true ↔ signatures = [])) ∧
      (kps = [] → ∀ (hash : ℕ) (signers : List ℕ) (sigs : List (List UInt8)),
        Evm.verifyThreshold ed (kps.map (·.signingPublicKey.toNat)) hash signers sigs ≠ .ok ()) := by
  refine ⟨fun hne => ?_, fun hnil => ?_, fun hnil hash signers sigs h => ?_⟩
  · have htexts : (kps.map nodePublicInfo).map (·.signingPubkey) =
        (kps.map (·.signingPublicKey)).map keyText := by
      simp [List.map_map, Function.comp_def, nodePublicInfo, keyText]
    have hnats : kps.map (·.signingPublicKey.toNat) =
        (kps.map (·.signingPublicKey)).map BytesN.toNat := by
      simp [List.map_map, Function.comp_def]
    rw [verifySignedBatch_quorum hne, htexts, hnats]
    simp only [Evm.verifyThreshold_eq_ok]
    constructor
    · intro hq
      obtain ⟨ks, hks, -⟩ := @exists_keys kps _ fun k hk => htexts ▸ hq.registered k hk
      have hlen : signatures.length = ks.length := by simpa using congrArg List.length hks
      have hsig : ∀ (i : ℕ) k, ks[i]? = some k → ∃ s, signatures[i]? = some s ∧
          (hexBytes s.signature).length = 64 ∧ ed k.toNat
            (Bytes.ofNat 32 (sha256 (batchMessage batchId batch)).toNat) (hexBytes s.signature) = true := by
        intro i k hk
        obtain ⟨t, ht, hvalid⟩ := hq.signed i (keyText k) (by rw [hks]; simp [hk])
        obtain ⟨s, hs, rfl⟩ : ∃ s, signatures[i]? = some s ∧ s.signature = t := by simpa using ht
        exact ⟨s, hs, validText_key.1 hvalid⟩
      refine ⟨ks, hks, fun s hs => ?_, ?_⟩
      · obtain ⟨i, hi, rfl⟩ := List.getElem_of_mem hs
        obtain ⟨s, hs', hl, -⟩ := hsig i ks[i] (by simp [hlen ▸ hi])
        obtain rfl : signatures[i] = s := by simpa [hi] using hs'
        exact hl
      · refine ⟨by simpa using hq.nonempty, ?_, ?_, ?_, by simpa [hlen] using hq.enough⟩
        · exact (List.Nodup.of_map _ (hks ▸ hq.distinct)).map BytesN.toNat_injective
        · intro n hn
          obtain ⟨k, hk, rfl⟩ := List.mem_map.1 hn
          have := hq.registered (keyText k) (hks ▸ List.mem_map_of_mem hk)
          exact List.mem_map_of_mem ((List.mem_map_of_injective keyText_injective).1 this)
        · intro i n hn
          obtain ⟨k, hk, rfl⟩ : ∃ k, ks[i]? = some k ∧ k.toNat = n := by simpa using hn
          obtain ⟨s, hs, -, hed⟩ := hsig i k hk
          exact ⟨hexBytes s.signature, by simp [hs], hed⟩
    · rintro ⟨ks, hks, hl, hq⟩
      have hlen : signatures.length = ks.length := by simpa using congrArg List.length hks
      rw [hks]
      refine ⟨by simpa using hq.nonempty, ?_, ?_, ?_, by simpa using hq.enough⟩
      · exact (List.Nodup.of_map _ hq.distinct).map keyText_injective
      · intro t ht
        obtain ⟨k, hk, rfl⟩ := List.mem_map.1 ht
        have := hq.registered k.toNat (List.mem_map_of_mem hk)
        exact List.mem_map_of_mem ((List.mem_map_of_injective BytesN.toNat_injective).1 this)
      · intro i t ht
        obtain ⟨k, hk, rfl⟩ : ∃ k, ks[i]? = some k ∧ keyText k = t := by simpa using ht
        obtain ⟨b, hb, hed⟩ := hq.signed i k.toNat (by simp [hk])
        obtain ⟨s, hs, rfl⟩ : ∃ s, signatures[i]? = some s ∧ hexBytes s.signature = b := by simpa using hb
        exact ⟨s.signature, by simp [hs], validText_key.2 ⟨hl s (List.mem_of_getElem? hs), hed⟩⟩
  · subst hnil
    rw [verifySignedBatch_eq_true]
    constructor
    · rintro ⟨-, -, hm, -⟩
      cases signatures with
      | nil => rfl
      | cons s _ => exact absurd (hm s.signingPubkey (by simp)) (by simp)
    · rintro rfl
      simp [threshold, Signed]
  · subst hnil
    exact absurd (Evm.verifyThreshold_eq_ok.1 h).nonempty (by simp)

/-! ## Agreement -/

/-- A call of `signBatch`, under the public key of its key pair. -/
structure Signing where
  publicKey : BytesN 32
  batchId : String
  batch : List BatchMatch

section
variable (ed : ℕ → List UInt8 → List UInt8 → Bool) (sha256 : List UInt8 → BitVec 256)
  (log : List Signing) (k : BytesN 32)

/-- The owner of the key signs one hash under a batch id. -/
def SignsOnce : Prop :=
  ∀ e ∈ log, ∀ e' ∈ log, e.publicKey = k → e'.publicKey = k → e.batchId = e'.batchId →
    computeBatchHash sha256 e.batchId e.batch = computeBatchHash sha256 e'.batchId e'.batch

/-- Signatures of the batch that verify under the key are of hashes that its owner has signed. -/
def Unforged (batchId : String) (batch : List BatchMatch) (signatures : List NodeSignature) : Prop :=
  ∀ s ∈ signatures, s.signingPubkey = keyText k →
    verifyNodeSignature ed sha256 batchId batch s = some true →
      ∃ e ∈ log, e.publicKey = k ∧
        computeBatchHash sha256 e.batchId e.batch = computeBatchHash sha256 batchId batch

end

/-- Every signer of an accepted batch has a signature in it that verifies. -/
theorem exists_signature {expected : List String}
    (hq : Quorum (ValidText ed sha256 batchId batch) expected (signatures.map (·.signingPubkey))
      (signatures.map (·.signature))) {t : String} (ht : t ∈ signatures.map (·.signingPubkey)) :
    ∃ s ∈ signatures, s.signingPubkey = t ∧ verifyNodeSignature ed sha256 batchId batch s = some true := by
  obtain ⟨i, hi⟩ := List.getElem?_of_mem ht
  obtain ⟨sig, hsig, hvalid⟩ := hq.signed i t hi
  rw [List.getElem?_map, Option.map_eq_some_iff] at hi hsig
  obtain ⟨s, hs, rfl⟩ := hi
  obtain ⟨s', hs', rfl⟩ := hsig
  obtain rfl := Option.some.inj (hs.symm.trans hs')
  exact ⟨s, List.mem_of_getElem? hs, rfl, hvalid⟩

/-- **Agreement.** Let the owners of all keys but a few, fewer than two quorums have in common (about a
third of the committee), sign one hash under a batch id, and let their signatures not be forged. Then
any two accepted batches of one id have the same matches up to their order. -/
theorem signed_batch_agreement {kps : List NodePublicKeys} (hne : kps ≠ []) {log : List Signing}
    {U : Set (List UInt8)} (hU : Set.InjOn sha256 U)
    (hlog : ∀ e ∈ log, batchMessage e.batchId e.batch ∈ U) {faulty : Finset (BytesN 32)}
    (hfew : faulty.card < 2 * ((2 * kps.length) ⌈/⌉ 3) - kps.length)
    (honest : ∀ k ∈ kps.map (·.signingPublicKey), k ∉ faulty → SignsOnce sha256 log k)
    {batch' : List BatchMatch} {signatures' : List NodeSignature}
    (hforge : ∀ k ∈ kps.map (·.signingPublicKey), k ∉ faulty →
      Unforged ed sha256 log k batchId batch signatures ∧
        Unforged ed sha256 log k batchId batch' signatures')
    (hb : batchMessage batchId batch ∈ U) (hb' : batchMessage batchId batch' ∈ U)
    (h : verifySignedBatch ed sha256 batchId batch signatures (kps.map nodePublicInfo) = some true)
    (h' : verifySignedBatch ed sha256 batchId batch' signatures' (kps.map nodePublicInfo) =
      some true) : (batch.map BatchMatch.row).Perm (batch'.map BatchMatch.row) := by
  have hq := (verifySignedBatch_quorum hne).1 h
  have hq' := (verifySignedBatch_quorum hne).1 h'
  obtain ⟨hmeet, -⟩ := hq.inter hq'
  simp only [List.length_map] at hmeet
  -- some signer of both is honest
  obtain ⟨t, ht, hnot⟩ : ∃ t ∈ (signatures.map (·.signingPubkey)).toFinset ∩
      (signatures'.map (·.signingPubkey)).toFinset, t ∉ faulty.image keyText := by
    by_contra hall
    push Not at hall
    have hcard := Finset.card_le_card hall
    have himage := Finset.card_image_le (s := faulty) (f := keyText)
    omega
  obtain ⟨ht₁, ht₂⟩ := Finset.mem_inter.1 ht
  rw [List.mem_toFinset] at ht₁ ht₂
  have hreg := hq.registered t ht₁
  simp only [List.map_map, List.mem_map, Function.comp_apply] at hreg
  obtain ⟨kp, hkp, rfl⟩ := hreg
  have hkey : kp.signingPublicKey ∈ kps.map (·.signingPublicKey) := List.mem_map_of_mem hkp
  have hgood : kp.signingPublicKey ∉ faulty := fun hf => hnot (Finset.mem_image_of_mem keyText hf)
  -- so it has signed both hashes, under the one id
  obtain ⟨s, hs, hst, hvalid⟩ := exists_signature hq ht₁
  obtain ⟨s', hs', hst', hvalid'⟩ := exists_signature hq' ht₂
  obtain ⟨hun, hun'⟩ := hforge _ hkey hgood
  obtain ⟨e, he, hek, hhash⟩ := hun s hs hst hvalid
  obtain ⟨e', he', hek', hhash'⟩ := hun' s' hs' hst' hvalid'
  have hid := (computeBatchHash_inj hU (hlog e he) hb hhash).1
  have hid' := (computeBatchHash_inj hU (hlog e' he') hb' hhash').1
  have honce := honest _ hkey hgood e he e' he' hek hek' (hid.trans hid'.symm)
  exact (computeBatchHash_inj hU hb hb' (hhash.symm.trans (honce.trans hhash'))).2

/-! ### Four nodes -/

/-- Four nodes. -/
def fourNodes : List NodePublicKeys :=
  [1, 2, 3, 4].map fun i => ⟨"node", .ofNat 32 i, .ofNat 32 i⟩

/-- A scheme with one signature for each key and message: the message and the key. -/
def joinedEd (publicKey : ℕ) (msg sig : List UInt8) : Bool :=
  decide (sig = msg ++ Bytes.ofNat 32 publicKey)

/-- A hash that keeps the texts of the witness apart. -/
def sampleSha (bs : List UInt8) : BitVec 256 :=
  BitVec.ofNat 256 (bs.foldl (fun n b => 257 * n + b.toNat + 1) 0)

/-- What the node with this key signs for a batch. -/
def signWith (batchId : String) (batch : List BatchMatch) (k : ℕ) : NodeSignature where
  nodeId := "node"
  signingPubkey := keyText (.ofNat 32 k)
  signature := String.ofList (Text.hex
    (Bytes.ofNat 32 (sampleSha (batchMessage batchId batch)).toNat ++ Bytes.ofNat 32 k))

/-- Two matches, in one order and in the other. -/
def matchesAbCd : List BatchMatch :=
  [⟨⟨"a", "b", "1", "USDC", "XLM"⟩, none, none, none⟩, ⟨⟨"c", "d", "2", "XLM", "USDC"⟩, none, none, none⟩]

/-- The first three nodes sign the matches and the last three their reverse; the fourth has also signed
the first match alone under the same id. -/
def fourSignings : List Signing :=
  [1, 2, 3].map (⟨.ofNat 32 ·, "u0", matchesAbCd⟩) ++
    [2, 3, 4].map (⟨.ofNat 32 ·, "u0", matchesAbCd.reverse⟩) ++ [⟨.ofNat 32 4, "u0", matchesAbCd.take 1⟩]

/-- Their messages. -/
def fourMessages : Set (List UInt8) :=
  {batchMessage "u0" matchesAbCd, batchMessage "u0" (matchesAbCd.take 1)}

/-- The reverse has the message of the matches. -/
theorem message_reverse : batchMessage "u0" matchesAbCd.reverse = batchMessage "u0" matchesAbCd :=
  batchMessage_perm (by unfold Row.Plain; decide) (List.reverse_perm _)

/-- The messages that were signed. -/
theorem message_fourSignings : ∀ e ∈ fourSignings, batchMessage e.batchId e.batch ∈ fourMessages := by
  simp only [fourSignings, List.map_cons, List.map_nil, List.cons_append, List.nil_append,
    List.forall_mem_cons, message_reverse]
  simp [fourMessages]

/-- The sample hash has no collision on the signed messages. -/
theorem sampleSha_injOn : Set.InjOn sampleSha fourMessages := by
  have hne : sampleSha (batchMessage "u0" matchesAbCd) ≠
      sampleSha (batchMessage "u0" (matchesAbCd.take 1)) := by decide +kernel
  rintro _ (rfl | rfl) _ (rfl | rfl) h
  · rfl
  · exact absurd h hne
  · exact absurd h.symm hne
  · rfl

/-- Three keys have signed one hash only. -/
theorem hash_fourSignings : ∀ e ∈ fourSignings, e.publicKey ≠ .ofNat 32 4 →
    computeBatchHash sampleSha e.batchId e.batch = computeBatchHash sampleSha "u0" matchesAbCd := by
  have hrev : computeBatchHash sampleSha "u0" matchesAbCd.reverse =
      computeBatchHash sampleSha "u0" matchesAbCd := by
    rw [computeBatchHash, computeBatchHash, message_reverse]
  simp only [fourSignings, List.map_cons, List.map_nil, List.cons_append, List.nil_append,
    List.forall_mem_cons, hrev]
  simp

/-- Every honest node of the sample signs one batch of an id. -/
theorem signsOnce_fourSignings : ∀ k ∈ fourNodes.map (·.signingPublicKey),
    k ∉ ({.ofNat 32 4} : Finset (BytesN 32)) → SignsOnce sampleSha fourSignings k := by
  intro k _ hk e he e' he' hek hek' _
  rw [Finset.mem_singleton] at hk
  rw [hash_fourSignings e he (hek ▸ hk), hash_fourSignings e' he' (hek' ▸ hk)]

/-- What a node has signed is on record. -/
theorem unforged_signWith {batch : List BatchMatch} {is : List ℕ}
    (h : ∀ i ∈ is, ⟨.ofNat 32 i, "u0", batch⟩ ∈ fourSignings) (k : BytesN 32) :
    Unforged joinedEd sampleSha fourSignings k "u0" batch (is.map (signWith "u0" batch)) := by
  intro s hs hkey _
  obtain ⟨i, hi, rfl⟩ := List.mem_map.1 hs
  exact ⟨_, h i hi, keyText_injective hkey, rfl⟩

/-- What a node signs verifies. -/
theorem validText_signWith {batchId : String} {batch : List BatchMatch} {k : ℕ} (hk : k < 256 ^ 32) :
    ValidText joinedEd sampleSha batchId batch (keyText (.ofNat 32 k))
      (signWith batchId batch k).signature := by
  have hsig : hexBytes (signWith batchId batch k).signature =
      Bytes.ofNat 32 (sampleSha (batchMessage batchId batch)).toNat ++ Bytes.ofNat 32 k :=
    hexBytes_hex _
  rw [validText_key, hsig]
  exact ⟨by simp, by simp [joinedEd, BytesN.toNat_ofNat hk]⟩

/-- Three signatures of the sample committee are accepted. -/
theorem accepted_signWith {batch : List BatchMatch} {is : List ℕ} (hlen : 3 ≤ is.length)
    (hnodup : (is.map (BytesN.ofNat 32)).Nodup) (hmem : ∀ i ∈ is, i ∈ [1, 2, 3, 4]) :
    verifySignedBatch joinedEd sampleSha "u0" batch (is.map (signWith "u0" batch))
      (fourNodes.map nodePublicInfo) = some true := by
  have hword : ∀ i ∈ is, i < 256 ^ 32 := fun i hi =>
    lt_of_le_of_lt ((by decide : ∀ i ∈ [1, 2, 3, 4], i ≤ 4) i (hmem i hi)) (by norm_num)
  have hkeys : (is.map (signWith "u0" batch)).map (·.signingPubkey) =
      (is.map (BytesN.ofNat 32)).map keyText := by
    simp [List.map_map, Function.comp_def, signWith]
  refine verifySignedBatch_eq_true.2 ⟨by simpa [fourNodes, threshold] using hlen, ?_, ?_, ?_⟩
  · rw [hkeys]
    exact hnodup.map keyText_injective
  · rw [hkeys, List.map_map]
    intro k hk
    obtain ⟨i, hi, rfl⟩ := List.mem_map.1 hk
    rw [List.map_map]
    exact List.mem_map.2 ⟨⟨"node", .ofNat 32 i, .ofNat 32 i⟩, List.mem_map_of_mem (hmem i hi), rfl⟩
  · clear hlen hnodup hmem hkeys
    induction is with
    | nil => trivial
    | cons i is ih =>
        rw [List.forall_mem_cons] at hword
        exact ⟨validText_signWith hword.1, ih hword.2⟩

/-- Four nodes with one faulty one: two signed batches of one id have the same rows, in different
orders. -/
theorem signed_batch_agreement_four :
    matchesAbCd ≠ matchesAbCd.reverse ∧
      (matchesAbCd.map BatchMatch.row).Perm (matchesAbCd.reverse.map BatchMatch.row) := by
  have hne : fourNodes ≠ [] := by simp [fourNodes]
  have hfew : ({.ofNat 32 4} : Finset (BytesN 32)).card <
      2 * ((2 * fourNodes.length) ⌈/⌉ 3) - fourNodes.length := by
    rw [two_thirds, Finset.card_singleton]
    decide
  have hlog : ∀ i ∈ [1, 2, 3], ⟨.ofNat 32 i, "u0", matchesAbCd⟩ ∈ fourSignings := by
    simp [fourSignings]
  have hlog' : ∀ i ∈ [2, 3, 4], ⟨.ofNat 32 i, "u0", matchesAbCd.reverse⟩ ∈ fourSignings := by
    simp [fourSignings]
  have hmem : batchMessage "u0" matchesAbCd ∈ fourMessages :=
    message_fourSignings ⟨.ofNat 32 1, "u0", matchesAbCd⟩ (hlog 1 (by simp))
  have hmem' : batchMessage "u0" matchesAbCd.reverse ∈ fourMessages :=
    message_fourSignings ⟨.ofNat 32 2, "u0", matchesAbCd.reverse⟩ (hlog' 2 (by simp))
  have haccepted := @accepted_signWith matchesAbCd [1, 2, 3] le_rfl (by decide) (by decide)
  have haccepted' := @accepted_signWith matchesAbCd.reverse [2, 3, 4] le_rfl (by decide)
    (by decide)
  exact ⟨by decide, signed_batch_agreement hne sampleSha_injOn
    message_fourSignings hfew signsOnce_fourSignings
    (fun k _ _ => ⟨unforged_signWith hlog k, unforged_signWith hlog' k⟩) hmem hmem' haccepted
    haccepted'⟩

end ShadePay.Mpc
