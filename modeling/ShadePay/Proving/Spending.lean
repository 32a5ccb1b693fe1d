import ShadePay.Circuit.Honest
import ShadePay.Proving.Priced

/-!
# Proving a spend

The proof builders of `packages/proving/src/bn254/prove.ts` and `stream.ts` up to their call of the
prover: what they check, the two Merkle paths they compute, and the record of signals they hand over.
The prover computes the outputs of the circuit from that record; `publicSignals` and `privateSignals`
are the assignment it ends with. Integers are unbounded on the way, and the prover reduces them to the
field. The theorems of this module say when the assignment satisfies the circuit. The depth of the
state tree is an argument: in the source it is `TREE_DEPTH`, which the pool is deployed with.
-/

namespace ShadePay.Proving

open Guard

/-! ## Coins -/

/-- The commitment and the nullifier hash of `commitmentHasher`. -/
def commitmentHasher (P : List Bn254 → Bn254) (assetId value label nullifier secret : ℕ) : ℕ × ℕ :=
  let precommitment := (P [(nullifier : Bn254), (secret : Bn254)]).val
  let assetValueLabel := (P [(assetId : Bn254), (value : Bn254), (label : Bn254)]).val
  ((P [(assetValueLabel : Bn254), (precommitment : Bn254)]).val, (P [(nullifier : Bn254)]).val)

/-- `generateCoinBn254`, with the random elements it draws. -/
def generateCoin (P : List Bn254 → Bn254) (value assetId label nullifier secret : ℕ) : Bn254Coin :=
  let hashes := commitmentHasher P assetId value label nullifier secret
  ⟨value, assetId, label, nullifier, secret, hashes.1, hashes.2⟩

/-- The note a coin opens. -/
def Bn254Coin.note (c : Bn254Coin) : Note Bn254 :=
  ⟨c.assetId, c.value, c.label, c.nullifier, c.secret⟩

/-- The private part of a coin that is an output. -/
def Bn254Coin.opening (c : Bn254Coin) : OutputOpening ℕ := ⟨c.label, c.nullifier, c.secret⟩

/-- The commitment of a coin is that of its note. -/
def Bn254Coin.Minted (P : List Bn254 → Bn254) (c : Bn254Coin) : Prop :=
  c.commitment = (c.note.commitment P).val

/-- A generated coin is minted. -/
theorem generateCoin_minted (P : List Bn254 → Bn254) (value assetId label nullifier secret : ℕ) :
    (generateCoin P value assetId label nullifier secret).Minted P := by
  simp only [Bn254Coin.Minted, generateCoin, commitmentHasher, Bn254Coin.note, Note.commitment,
    ZMod.natCast_zmod_val]

/-- The commitment of a minted coin is that of its note. -/
theorem Bn254Coin.Minted.cast {P : List Bn254 → Bn254} {c : Bn254Coin} (h : c.Minted P) :
    (c.commitment : Bn254) = c.note.commitment P := by
  rw [h, ZMod.natCast_zmod_val]

/-- The commitment of a minted coin is canonical. -/
theorem Bn254Coin.Minted.lt {P : List Bn254 → Bn254} {c : Bn254Coin} (h : c.Minted P) :
    c.commitment < bn254 := by
  rw [h]
  exact ZMod.val_lt _

/-! ## The builders -/

/-- What the builders throw. -/
inductive SpendError where
  /-- `stateLeaves[stateIndex] must equal coin.commitment`. -/
  | stateLeaf
  /-- `assocLabels[labelIndex] must equal coin.label`. -/
  | label
  /-- The same two checks on the coins of a settlement. -/
  | stateLeafA
  | stateLeafB
  | labelA
  | labelB
  /-- `mpc_settlement is same-asset only; use buildMpcPricedSettlementProofBn254 for cross-asset`. -/
  | crossAsset
  /-- `same-asset transfer requires outCoin.assetId === inCoin.assetId`, and
  `outCoinA/outCoinB must share coinA/coinB's assetId (...)`. -/
  | outAsset
  /-- `value conservation violated: ...`. -/
  | conservation
  /-- `withdrawnValue exceeds note value`. -/
  | exceedsValue
  /-- `cap exceeds input note value`. -/
  | capExceedsValue
  /-- `note value exceeds minted amount7dp (...)`. -/
  | exceedsMinted
  /-- `coin.assetId must equal binding.assetIdHash (...)`. -/
  | depositAsset
  /-- Thrown by `buildMerkleTree` or `getMerkleProof`. -/
  | tree (e : Error)
deriving DecidableEq

/-- Where an input coin is said to lie. -/
structure Located where
  stateLeaves : List ℕ
  stateIndex : ℤ
  assocLabels : List ℕ
  labelIndex : ℤ

/-- The roots of the two trees, and the private inputs that open and locate a coin. -/
structure Paths where
  stateRoot : ℕ
  associationRoot : ℕ
  spend : SpendWitness

/-- The two checks on an input coin. -/
def Located.check (l : Located) (c : Bn254Coin) : Except SpendError Unit := do
  require (elementAt l.stateLeaves l.stateIndex = some c.commitment) .stateLeaf
  require (elementAt l.assocLabels l.labelIndex = some c.label) .label

/-- The two trees and the two paths of an input coin. -/
def Located.paths (h : ℕ → ℕ → ℕ) (depth : ℕ) (l : Located) (c : Bn254Coin) :
    Except SpendError Paths := do
  let stateTree ← (buildMerkleTree h l.stateLeaves depth).mapError .tree
  let stateProof ← (getMerkleProof stateTree l.stateIndex).mapError .tree
  let assocTree ← (buildMerkleTree h l.assocLabels associationDepth).mapError .tree
  let assocProof ← (getMerkleProof assocTree l.labelIndex).mapError .tree
  return ⟨stateTree.root, assocTree.root, ⟨c.label, c.nullifier, c.secret, l.stateIndex,
    stateProof.siblings, l.labelIndex, assocProof.siblings⟩⟩

/-- `WithdrawBindingBn254`. -/
structure WithdrawBinding where
  operationType : ℤ
  recipientHash : ℤ
  relayerFee : ℤ
  deadlineLedger : ℤ
  quoteHash : Option ℤ
  intentHash : Option ℤ
  fillReceiptHash : Option ℤ
  destinationDomain : Option ℤ
  destinationRecipient : Option ℤ
  maxFee : Option ℤ
  minFinalityThreshold : Option ℤ

/-- `WithdrawInputBn254`. -/
structure WithdrawInput extends Located where
  coin : Bn254Coin
  withdrawnValue : ℤ
  poolId : ℤ
  chainId : ℤ
  binding : WithdrawBinding

/-- The record that the prover gets for `withdraw_public_bn254`. -/
structure WithdrawProverInput where
  operationType : ℤ
  withdrawnValue : ℤ
  recipientHash : ℤ
  relayerFee : ℤ
  deadlineLedger : ℤ
  stateRoot : ℕ
  associationRoot : ℕ
  poolId : ℤ
  chainId : ℤ
  quoteHash : ℤ
  intentHash : ℤ
  fillReceiptHash : ℤ
  destinationDomain : ℤ
  destinationRecipient : ℤ
  maxFee : ℤ
  minFinalityThreshold : ℤ
  assetId : ℕ
  value : ℕ
  spend : SpendWitness

/-- The `input` of `buildWithdrawProofBn254`. -/
def WithdrawInput.input (p : WithdrawInput) (paths : Paths) : WithdrawProverInput :=
  let b := p.binding
  {
    operationType := b.operationType
    withdrawnValue := p.withdrawnValue
    recipientHash := b.recipientHash
    relayerFee := b.relayerFee
    deadlineLedger := b.deadlineLedger
    stateRoot := paths.stateRoot
    associationRoot := paths.associationRoot
    poolId := p.poolId
    chainId := p.chainId
    quoteHash := b.quoteHash.getD 0
    intentHash := b.intentHash.getD 0
    fillReceiptHash := b.fillReceiptHash.getD 0
    destinationDomain := b.destinationDomain.getD 0
    destinationRecipient := b.destinationRecipient.getD 0
    maxFee := b.maxFee.getD 0
    minFinalityThreshold := b.minFinalityThreshold.getD 0
    assetId := p.coin.assetId
    value := p.coin.value
    spend := paths.spend }

/-- `buildWithdrawProofBn254` up to the call of the prover. -/
def buildWithdraw (h : ℕ → ℕ → ℕ) (depth : ℕ) (p : WithdrawInput) :
    Except SpendError WithdrawProverInput := do
  p.check p.coin
  require (p.withdrawnValue ≤ p.coin.value) .exceedsValue
  let paths ← p.paths h depth p.coin
  return p.input paths

/-- `TransferInputBn254`. -/
structure TransferInput extends Located where
  inCoin : Bn254Coin
  outCoin : Bn254Coin
  feePublic : ℤ
  poolId : ℤ
  chainId : ℤ

/-- The record that the prover gets for `private_transfer_bn254`. -/
structure TransferProverInput where
  outputCommitment : ℕ
  feePublic : ℤ
  stateRoot : ℕ
  associationRoot : ℕ
  poolId : ℤ
  chainId : ℤ
  inputAssetId : ℕ
  outputAssetId : ℕ
  inValue : ℕ
  spend : SpendWitness
  outValue : ℕ
  output : OutputOpening ℕ

/-- The `input` of `buildTransferProofBn254`. -/
def TransferInput.input (p : TransferInput) (paths : Paths) : TransferProverInput where
  outputCommitment := p.outCoin.commitment
  feePublic := p.feePublic
  stateRoot := paths.stateRoot
  associationRoot := paths.associationRoot
  poolId := p.poolId
  chainId := p.chainId
  inputAssetId := p.inCoin.assetId
  outputAssetId := p.outCoin.assetId
  inValue := p.inCoin.value
  spend := paths.spend
  outValue := p.outCoin.value
  output := p.outCoin.opening

/-- `buildTransferProofBn254` up to the call of the prover. -/
def buildTransfer (h : ℕ → ℕ → ℕ) (depth : ℕ) (p : TransferInput) :
    Except SpendError TransferProverInput := do
  p.check p.inCoin
  require (p.outCoin.assetId = p.inCoin.assetId) .outAsset
  require ((p.outCoin.value : ℤ) = p.inCoin.value - p.feePublic) .conservation
  let paths ← p.paths h depth p.inCoin
  return p.input paths

/-- `StreamOpenInputBn254`. -/
structure StreamOpenInput extends Located where
  inCoin : Bn254Coin
  channelId : ℤ
  payerAx : ℤ
  payerAy : ℤ
  cap : ℕ
  expiry : ℤ
  poolId : ℤ
  chainId : ℤ

/-- The record that the prover gets for `stream_open_bn254`. -/
structure StreamOpenProverInput where
  changeCommitment : ℕ
  reclaimCommitment : ℕ
  stateRoot : ℕ
  associationRoot : ℕ
  poolId : ℤ
  chainId : ℤ
  channelId : ℤ
  payerAx : ℤ
  payerAy : ℤ
  cap : ℕ
  expiry : ℤ
  assetId : ℕ
  inValue : ℕ
  spend : SpendWitness
  change : OutputOpening ℕ
  reclaim : OutputOpening ℕ

/-- The `input` of `buildStreamOpenProofBn254`. -/
def StreamOpenInput.input (p : StreamOpenInput) (paths : Paths) (changeCoin reclaimCoin : Bn254Coin) :
    StreamOpenProverInput where
  changeCommitment := changeCoin.commitment
  reclaimCommitment := reclaimCoin.commitment
  stateRoot := paths.stateRoot
  associationRoot := paths.associationRoot
  poolId := p.poolId
  chainId := p.chainId
  channelId := p.channelId
  payerAx := p.payerAx
  payerAy := p.payerAy
  cap := p.cap
  expiry := p.expiry
  assetId := p.inCoin.assetId
  inValue := p.inCoin.value
  spend := paths.spend
  change := changeCoin.opening
  reclaim := reclaimCoin.opening

/-- `buildStreamOpenProofBn254` up to the call of the prover, with the openings it draws for its two
coins, which it returns. -/
def buildStreamOpen (P : List Bn254 → Bn254) (depth : ℕ) (p : StreamOpenInput)
    (change reclaim : OutputOpening ℕ) :
    Except SpendError (StreamOpenProverInput × Bn254Coin × Bn254Coin) := do
  p.check p.inCoin
  require (p.cap ≤ p.inCoin.value) .capExceedsValue
  let changeCoin := generateCoin P (p.inCoin.value - p.cap) p.inCoin.assetId change.label
    change.nullifier change.secret
  let reclaimCoin := generateCoin P p.cap p.inCoin.assetId reclaim.label reclaim.nullifier
    reclaim.secret
  let paths ← p.paths (wordHash P) depth p.inCoin
  return (p.input paths changeCoin reclaimCoin, changeCoin, reclaimCoin)

/-- `DepositBindingBn254`. -/
structure DepositBinding where
  sourceDomain : ℤ
  destinationDomain : ℤ
  cctpNonceHash : ℤ
  burnTxHashHash : ℤ
  amount6dp : ℤ
  amount7dp : ℤ
  assetIdHash : ℤ
  recipientPool : ℤ
  encryptedNotePayloadHash : ℤ
  policyIdHash : ℤ
  poolId : ℤ
  chainId : ℤ

/-- `buildDepositProofBn254` up to the call of the prover, which gets the coin and the binding. -/
def buildDeposit (c : Bn254Coin) (b : DepositBinding) :
    Except SpendError (Bn254Coin × DepositBinding) := do
  require ((c.value : ℤ) ≤ b.amount7dp) .exceedsMinted
  require ((c.assetId : ℤ) = b.assetIdHash) .depositAsset
  return (c, b)

/-- `MpcSettlementInputBn254`. -/
structure MpcSettlementInput where
  coinA : Bn254Coin
  coinB : Bn254Coin
  outCoinA : Bn254Coin
  outCoinB : Bn254Coin
  stateLeaves : List ℕ
  stateIndexA : ℤ
  stateIndexB : ℤ
  assocLabels : List ℕ
  labelIndexA : ℤ
  labelIndexB : ℤ
  matchedAmount7dp : ℤ
  batchHash : ℤ
  poolId : ℤ
  chainId : ℤ
  deadlineLedger : ℤ

/-- The record that the prover gets for `mpc_settlement_bn254`. -/
structure MpcProverInput where
  stateRoot : ℕ
  associationRoot : ℕ
  batchHash : ℤ
  poolId : ℤ
  chainId : ℤ
  matchedAmount7dp : ℤ
  deadlineLedger : ℤ
  assetId : ℕ
  valueA : ℕ
  spendA : SpendWitness
  outValueA : ℕ
  outputA : OutputOpening ℕ
  valueB : ℕ
  spendB : SpendWitness
  outValueB : ℕ
  outputB : OutputOpening ℕ

/-- The `input` of `buildMpcSettlementProofBn254`. -/
def MpcSettlementInput.input (p : MpcSettlementInput) (stateTree assocTree : MerkleTree)
    (proofA proofB assocProofA assocProofB : MerkleProof) : MpcProverInput where
  stateRoot := stateTree.root
  associationRoot := assocTree.root
  batchHash := p.batchHash
  poolId := p.poolId
  chainId := p.chainId
  matchedAmount7dp := p.matchedAmount7dp
  deadlineLedger := p.deadlineLedger
  assetId := p.coinA.assetId
  valueA := p.coinA.value
  spendA := ⟨p.coinA.label, p.coinA.nullifier, p.coinA.secret, p.stateIndexA, proofA.siblings,
    p.labelIndexA, assocProofA.siblings⟩
  outValueA := p.outCoinA.value
  outputA := p.outCoinA.opening
  valueB := p.coinB.value
  spendB := ⟨p.coinB.label, p.coinB.nullifier, p.coinB.secret, p.stateIndexB, proofB.siblings,
    p.labelIndexB, assocProofB.siblings⟩
  outValueB := p.outCoinB.value
  outputB := p.outCoinB.opening

/-- `buildMpcSettlementProofBn254` up to the call of the prover. -/
def buildMpcSettlement (h : ℕ → ℕ → ℕ) (depth : ℕ) (p : MpcSettlementInput) :
    Except SpendError MpcProverInput := do
  require (p.coinA.assetId = p.coinB.assetId) .crossAsset
  require (p.outCoinA.assetId = p.coinA.assetId ∧ p.outCoinB.assetId = p.coinA.assetId) .outAsset
  require ((p.outCoinA.value : ℤ) + p.outCoinB.value = p.matchedAmount7dp * 2) .conservation
  require (elementAt p.stateLeaves p.stateIndexA = some p.coinA.commitment) .stateLeafA
  require (elementAt p.stateLeaves p.stateIndexB = some p.coinB.commitment) .stateLeafB
  require (elementAt p.assocLabels p.labelIndexA = some p.coinA.label) .labelA
  require (elementAt p.assocLabels p.labelIndexB = some p.coinB.label) .labelB
  let stateTree ← (buildMerkleTree h p.stateLeaves depth).mapError .tree
  let proofA ← (getMerkleProof stateTree p.stateIndexA).mapError .tree
  let proofB ← (getMerkleProof stateTree p.stateIndexB).mapError .tree
  let assocTree ← (buildMerkleTree h p.assocLabels associationDepth).mapError .tree
  let assocProofA ← (getMerkleProof assocTree p.labelIndexA).mapError .tree
  let assocProofB ← (getMerkleProof assocTree p.labelIndexB).mapError .tree
  return p.input stateTree assocTree proofA proofB assocProofA assocProofB

/-! ## The assignments -/

/-- The private inputs of a spend, in the field. -/
def SpendWitness.input (s : SpendWitness) : SpendInput Bn254 where
  label := s.label
  nullifier := s.nullifier
  secret := s.secret
  stateIndex := s.stateIndex
  stateSiblings l := (s.stateSiblings.getD l 0 : ℕ)
  labelIndex := s.labelIndex
  labelSiblings l := (s.labelSiblings.getD l 0 : ℕ)

/-- The opening of an output, in the field. -/
def fieldOpening (o : OutputOpening ℕ) : OutputOpening Bn254 := ⟨o.label, o.nullifier, o.secret⟩

section
variable (P : List Bn254 → Bn254)

/-- The nullifier hash that the circuit computes for a spend. -/
def SpendWitness.nullifierHash (s : SpendWitness) (poolId chainId : ℤ) : Bn254 :=
  P [(s.nullifier : Bn254), (poolId : Bn254), (chainId : Bn254)]

/-- The public signals of `withdraw_public_bn254`. -/
def WithdrawProverInput.publicSignals (x : WithdrawProverInput) : WithdrawPub Bn254 where
  nullifierHash := x.spend.nullifierHash P x.poolId x.chainId
  operationType := x.operationType
  withdrawnValue := x.withdrawnValue
  recipientHash := x.recipientHash
  relayerFee := x.relayerFee
  deadline := x.deadlineLedger
  stateRoot := x.stateRoot
  associationRoot := x.associationRoot
  poolId := x.poolId
  chainId := x.chainId
  quoteHash := x.quoteHash
  intentHash := x.intentHash
  fillReceiptHash := x.fillReceiptHash
  destinationDomain := x.destinationDomain
  destinationRecipient := x.destinationRecipient
  maxFee := x.maxFee
  minFinalityThreshold := x.minFinalityThreshold
  assetId := x.assetId

/-- The private signals of `withdraw_public_bn254`. -/
def WithdrawProverInput.privateSignals (x : WithdrawProverInput) : WithdrawWit Bn254 :=
  ⟨x.value, x.spend.input⟩

/-- The public signals of `private_transfer_bn254`. -/
def TransferProverInput.publicSignals (x : TransferProverInput) : TransferPub Bn254 where
  nullifierHash := x.spend.nullifierHash P x.poolId x.chainId
  outputCommitment := x.outputCommitment
  feePublic := x.feePublic
  stateRoot := x.stateRoot
  associationRoot := x.associationRoot
  poolId := x.poolId
  chainId := x.chainId
  inputAssetId := x.inputAssetId
  outputAssetId := x.outputAssetId

/-- The private signals of `private_transfer_bn254`. -/
def TransferProverInput.privateSignals (x : TransferProverInput) : TransferWit Bn254 :=
  ⟨x.inValue, x.spend.input, x.outValue, fieldOpening x.output⟩

/-- The public signals of `stream_open_bn254`. -/
def StreamOpenProverInput.publicSignals (x : StreamOpenProverInput) : StreamOpenPub Bn254 where
  inputNullifierHash := x.spend.nullifierHash P x.poolId x.chainId
  changeCommitment := x.changeCommitment
  reclaimCommitment := x.reclaimCommitment
  stateRoot := x.stateRoot
  associationRoot := x.associationRoot
  poolId := x.poolId
  chainId := x.chainId
  channelId := x.channelId
  payerAx := x.payerAx
  payerAy := x.payerAy
  cap := x.cap
  expiry := x.expiry
  assetId := x.assetId

/-- The private signals of `stream_open_bn254`. -/
def StreamOpenProverInput.privateSignals (x : StreamOpenProverInput) : StreamOpenWit Bn254 :=
  ⟨x.inValue, x.spend.input, fieldOpening x.change, fieldOpening x.reclaim⟩

/-- The public signals of `deposit_note_mint_bn254`. -/
def depositSignals (c : Bn254Coin) (b : DepositBinding) : DepositPub Bn254 where
  commitment := c.note.commitment P
  operationType := 4
  sourceDomain := b.sourceDomain
  destinationDomain := b.destinationDomain
  cctpNonceHash := b.cctpNonceHash
  burnTxHashHash := b.burnTxHashHash
  amount6dp := b.amount6dp
  amount7dp := b.amount7dp
  assetIdHash := b.assetIdHash
  recipientPool := b.recipientPool
  encryptedNotePayloadHash := b.encryptedNotePayloadHash
  policyIdHash := b.policyIdHash
  poolId := b.poolId
  chainId := b.chainId

/-- The public signals of `mpc_settlement_bn254`. The two output commitments are computed by the
circuit. -/
def MpcProverInput.publicSignals (x : MpcProverInput) : MpcPub Bn254 where
  nullifierHashA := x.spendA.nullifierHash P x.poolId x.chainId
  nullifierHashB := x.spendB.nullifierHash P x.poolId x.chainId
  outputCommitmentA := ((fieldOpening x.outputA).note x.assetId x.outValueA).commitment P
  outputCommitmentB := ((fieldOpening x.outputB).note x.assetId x.outValueB).commitment P
  stateRoot := x.stateRoot
  associationRoot := x.associationRoot
  batchHash := x.batchHash
  poolId := x.poolId
  chainId := x.chainId
  matchedAmount7dp := x.matchedAmount7dp
  deadline := x.deadlineLedger
  assetId := x.assetId

/-- The private signals of `mpc_settlement_bn254`. -/
def MpcProverInput.privateSignals (x : MpcProverInput) : MpcWit Bn254 :=
  ⟨x.valueA, x.spendA.input, x.outValueA, fieldOpening x.outputA, x.valueB, x.spendB.input,
    x.outValueB, fieldOpening x.outputB⟩

end

/-! ## Paths -/

section
variable {P : List Bn254 → Bn254} {depth : ℕ}

/-- **A located leaf has a proof.** Both functions return for the index of a leaf, and the circuit
folds the leaf along the siblings to the root of the tree. -/
theorem located_proof {leaves : List ℕ} {i : ℤ} {c : ℕ} (hd : depth ≤ 30)
    (hlen : leaves.length ≤ 2 ^ depth) (hi : elementAt leaves i = some c) :
    ∃ T, buildMerkleTree (wordHash P) leaves depth = .ok T ∧
      T.root = Merkle.root (wordHash P) 0 depth leaves ∧
      ∃ π, getMerkleProof T i = .ok π ∧ MerkleRoot P depth (c : Bn254) (i : Bn254)
        (fun l => ((π.siblings.getD l 0 : ℕ) : Bn254)) (T.root : ℕ) := by
  obtain ⟨hi₀, hlt⟩ := elementAt_lt hi
  obtain ⟨k, rfl⟩ := Int.eq_ofNat_of_zero_le hi₀
  have hk : leaves[k]? = some c := by simpa [elementAt] using hi
  have hlt : k < leaves.length := by simpa using hlt
  obtain ⟨T, hT, -, hroot, -⟩ := buildMerkleTree_spec (h := wordHash P) hd hlen
  obtain ⟨π, hπ, -, -, hs⟩ := getMerkleProof_spec hd hT hlen (lt_of_lt_of_le hlt hlen)
  refine ⟨T, hT, hroot, π, hπ, ?_⟩
  have hleaf : Merkle.pad 0 (leaves.map Nat.cast) k = (c : Bn254) := by
    rw [Merkle.pad, List.getD_eq_getElem?_getD, List.getElem?_map, hk]
    rfl
  rw [hroot, Merkle.root, cast_node, ← hleaf, Int.cast_natCast]
  refine (merkleRoot_iff (by omega) (lt_of_lt_of_le hlt hlen) fun l hl => ?_).2 rfl
  rw [hs l hl, cast_node]

/-- What a coin needs to be spent: it opens its commitment, lies where it is said to lie, and the
leaves fit the trees. -/
structure Spendable (P : List Bn254 → Bn254) (depth : ℕ) (l : Located) (c : Bn254Coin) : Prop where
  minted : c.Minted P
  stateLeaf : elementAt l.stateLeaves l.stateIndex = some c.commitment
  label : elementAt l.assocLabels l.labelIndex = some c.label
  state : l.stateLeaves.length ≤ 2 ^ depth
  labels : l.assocLabels.length ≤ 2 ^ associationDepth
  depth : depth ≤ 30

/-- The paths of a coin: at the roots of the two trees they satisfy the spend block of the
templates. -/
structure Paths.Spend (P : List Bn254 → Bn254) (depth : ℕ) (l : Located) (c : Bn254Coin)
    (p : Paths) : Prop where
  stateRoot : p.stateRoot = Merkle.root (wordHash P) 0 depth l.stateLeaves
  associationRoot : p.associationRoot = Merkle.root (wordHash P) 0 associationDepth l.assocLabels
  nullifierHash : ∀ poolId chainId : ℤ,
    p.spend.nullifierHash P poolId chainId = c.note.nullifierHash P poolId chainId
  note : p.spend.input.note c.assetId c.value = c.note
  spends : ∀ poolId chainId : Bn254, SpendsNote P depth associationDepth p.spend.input c.note
    p.stateRoot p.associationRoot poolId chainId (c.note.nullifierHash P poolId chainId)

section
variable {l : Located} {c : Bn254Coin}

theorem Spendable.check (h : Spendable P depth l c) : l.check c = .ok () := by
  rw [Located.check, require_of h.stateLeaf, ok_bind, require_of h.label]

/-- **A spendable coin has its paths.** -/
theorem Spendable.paths (h : Spendable P depth l c) :
    ∃ p, l.paths (wordHash P) depth c = .ok p ∧ p.Spend P depth l c := by
  obtain ⟨T, hT, hTroot, π, hπ, hstate⟩ := located_proof (P := P) h.depth h.state h.stateLeaf
  obtain ⟨S, hS, hSroot, ρ, hρ, hlabel⟩ :=
    located_proof (P := P) (by norm_num [associationDepth]) h.labels h.label
  refine ⟨⟨T.root, S.root, ⟨c.label, c.nullifier, c.secret, l.stateIndex, π.siblings, l.labelIndex,
    ρ.siblings⟩⟩, ?_, hTroot, hSroot, fun _ _ => rfl, rfl, fun poolId chainId => ⟨?_, hlabel, rfl⟩⟩
  · simp only [Located.paths, hT, hπ, hS, hρ, Except.mapError, ok_bind]
    rfl
  · rw [← h.minted.cast]
    exact hstate

end

/-! ## Which inputs are proved -/

/-- An integer within `2 ^ 252` of zero passes a range check of 128 bits exactly when it is a number
of 128 bits. -/
theorem inRange_intCast {x : ℤ} (hlo : -2 ^ 252 < x) (hhi : x < 2 ^ 252) :
    InRange 128 ((x : ℤ) : Bn254) ↔ 0 ≤ x ∧ x < 2 ^ 128 := by
  have hwide : 2 ^ 253 < bn254 := WideModulus.wide
  have hval : (((x : ℤ) : Bn254).val : ℤ) = x % bn254 := ZMod.val_intCast x
  have hiff : InRange 128 ((x : ℤ) : Bn254) ↔ x % bn254 < 2 ^ 128 := by
    rw [inRange_iff (by norm_num), ← hval]
    norm_cast
  rw [hiff]
  rcases le_or_gt 0 x with hx | hx
  · rw [Int.emod_eq_of_lt hx (by omega)]
    exact ⟨fun h => ⟨hx, h⟩, fun h => h.2⟩
  · -- a negative number is represented near the modulus
    have hneg : x % bn254 = x + bn254 := by
      rw [← Int.add_emod_right, Int.emod_eq_of_lt (by omega) (by omega)]
    rw [hneg]
    constructor <;> intro h <;> omega

/-- **Withdrawals.** The builder hands over the input of a spendable coin, and its assignment
satisfies the circuit exactly when the fee is a number that the withdrawn value covers. -/
theorem buildWithdraw_sat {p : WithdrawInput} (h : Spendable P depth p.toLocated p.coin)
    (hv : p.coin.value < 2 ^ 128) (hw : p.withdrawnValue ≤ p.coin.value)
    (hwlo : -2 ^ 251 < p.withdrawnValue) (hflo : -2 ^ 251 < p.binding.relayerFee)
    (hfhi : p.binding.relayerFee < 2 ^ 251) :
    ∃ paths : Paths, paths.Spend P depth p.toLocated p.coin ∧
      buildWithdraw (wordHash P) depth p = .ok (p.input paths) ∧
      (Withdraw P depth associationDepth ((p.input paths).publicSignals P)
          (p.input paths).privateSignals ↔
        0 ≤ p.binding.relayerFee ∧ p.binding.relayerFee ≤ p.withdrawnValue) := by
  obtain ⟨paths, hpaths, hspend⟩ := h.paths
  refine ⟨paths, hspend, ?_, fun hsat => ?_, fun ⟨hf, hfw⟩ => ?_⟩
  · rw [buildWithdraw, h.check, ok_bind, require_of hw, ok_bind, hpaths]
    rfl
  · have hfee : InRange 128 ((p.binding.relayerFee : ℤ) : Bn254) := hsat.relayerFee
    have hnet : InRange 128 ((p.withdrawnValue - p.binding.relayerFee : ℤ) : Bn254) := by
      rw [Int.cast_sub]
      exact hsat.netOutput
    rw [inRange_intCast (by omega) (by omega)] at hfee hnet
    omega
  · have hs := hspend.spends p.poolId p.chainId
    rw [← hspend.nullifierHash, ← hspend.note] at hs
    have hrem : InRange 128 ((p.coin.value - p.withdrawnValue : ℤ) : Bn254) :=
      (inRange_intCast (by omega) (by omega)).2 (by omega)
    have hwd : InRange 128 ((p.withdrawnValue : ℤ) : Bn254) :=
      (inRange_intCast (by omega) (by omega)).2 (by omega)
    have hnet : InRange 128 ((p.withdrawnValue - p.binding.relayerFee : ℤ) : Bn254) :=
      (inRange_intCast (by omega) (by omega)).2 (by omega)
    have hfee : InRange 128 ((p.binding.relayerFee : ℤ) : Bn254) :=
      (inRange_intCast (by omega) (by omega)).2 (by omega)
    rw [Int.cast_sub, Int.cast_natCast] at hrem
    rw [Int.cast_sub] at hnet
    exact ⟨hs, hrem, hwd, hnet, hfee⟩

/-- **Transfers.** The builder hands over the input of a spendable coin and an output of its asset
that keeps its value up to the fee; the assignment satisfies the circuit exactly when the fee is not
negative. -/
theorem buildTransfer_sat {p : TransferInput} (h : Spendable P depth p.toLocated p.inCoin)
    (hout : p.outCoin.Minted P) (hv : p.inCoin.value < 2 ^ 128) (hv' : p.outCoin.value < 2 ^ 128)
    (hasset : p.outCoin.assetId = p.inCoin.assetId)
    (hcons : (p.outCoin.value : ℤ) = p.inCoin.value - p.feePublic) :
    ∃ paths : Paths, paths.Spend P depth p.toLocated p.inCoin ∧
      buildTransfer (wordHash P) depth p = .ok (p.input paths) ∧
      (PrivateTransfer P depth associationDepth ((p.input paths).publicSignals P)
          (p.input paths).privateSignals ↔ 0 ≤ p.feePublic) := by
  obtain ⟨paths, hpaths, hspend⟩ := h.paths
  refine ⟨paths, hspend, ?_, fun hsat => ?_, fun hf => ?_⟩
  · rw [buildTransfer, h.check, ok_bind, require_of hasset, ok_bind, require_of hcons, ok_bind,
      hpaths]
    rfl
  · have hfee : InRange 128 ((p.feePublic : ℤ) : Bn254) := hsat.feeRange
    rw [inRange_intCast (by omega) (by omega)] at hfee
    exact hfee.1
  · have hs := hspend.spends p.poolId p.chainId
    rw [← hspend.nullifierHash, ← hspend.note] at hs
    have hval : (p.inCoin.value : Bn254) = p.outCoin.value + p.feePublic := by
      have : (p.inCoin.value : ℤ) = p.outCoin.value + p.feePublic := by omega
      have := congrArg (Int.cast : ℤ → Bn254) this
      push_cast at this
      exact this
    have hfee : InRange 128 ((p.feePublic : ℤ) : Bn254) :=
      (inRange_intCast (by omega) (by omega)).2 (by omega)
    have hsame : (p.inCoin.assetId : Bn254) = p.outCoin.assetId := by rw [hasset]
    exact ⟨hsame, hs, hout.cast, hval, inRange_natCast (by norm_num) hv', hfee⟩

/-- **Openings.** The builder hands over the input of a spendable coin that holds the cap, and its
assignment satisfies the circuit. -/
theorem buildStreamOpen_sat {p : StreamOpenInput} (h : Spendable P depth p.toLocated p.inCoin)
    (hv : p.inCoin.value < 2 ^ 128) (hcap : p.cap ≤ p.inCoin.value)
    (change reclaim : OutputOpening ℕ) :
    ∃ (paths : Paths) (changeCoin reclaimCoin : Bn254Coin),
      paths.Spend P depth p.toLocated p.inCoin ∧
      changeCoin = generateCoin P (p.inCoin.value - p.cap) p.inCoin.assetId change.label
        change.nullifier change.secret ∧
      reclaimCoin = generateCoin P p.cap p.inCoin.assetId reclaim.label reclaim.nullifier
        reclaim.secret ∧
      buildStreamOpen P depth p change reclaim =
        .ok (p.input paths changeCoin reclaimCoin, changeCoin, reclaimCoin) ∧
      StreamOpen P depth associationDepth ((p.input paths changeCoin reclaimCoin).publicSignals P)
        (p.input paths changeCoin reclaimCoin).privateSignals := by
  obtain ⟨paths, hpaths, hspend⟩ := h.paths
  refine ⟨paths, _, _, hspend, rfl, rfl, ?_, ?_⟩
  · rw [buildStreamOpen, h.check, ok_bind, require_of hcap, ok_bind]
    simp only [hpaths, ok_bind]
    rfl
  · have hs := hspend.spends p.poolId p.chainId
    rw [← hspend.nullifierHash, ← hspend.note] at hs
    have hsub : ((p.inCoin.value - p.cap : ℕ) : Bn254) = p.inCoin.value - p.cap :=
      Nat.cast_sub hcap
    have hchange := (generateCoin_minted P (p.inCoin.value - p.cap) p.inCoin.assetId change.label
      change.nullifier change.secret).cast
    simp only [generateCoin, Bn254Coin.note, hsub] at hchange
    have hrange : InRange 128 ((p.inCoin.value - p.cap : ℕ) : Bn254) :=
      inRange_natCast (by norm_num) (by omega)
    rw [hsub] at hrange
    have hcapRange : InRange 128 ((p.cap : ℕ) : Bn254) :=
      inRange_natCast (by norm_num) (by omega)
    exact ⟨hs, hrange, hcapRange, hchange,
      (generateCoin_minted P p.cap p.inCoin.assetId reclaim.label reclaim.nullifier
        reclaim.secret).cast⟩

/-- **Deposits.** A coin of the asset of the binding and within its amount is handed over as it is, and
the assignment satisfies the circuit exactly when the rest of the amount is a number of 128 bits. -/
theorem buildDeposit_sat {c : Bn254Coin} {b : DepositBinding} (hv : c.value < 2 ^ 128)
    (hle : (c.value : ℤ) ≤ b.amount7dp) (hasset : (c.assetId : ℤ) = b.assetIdHash)
    (hamount : b.amount7dp < 2 ^ 252) :
    buildDeposit c b = .ok (c, b) ∧
      (DepositNoteMint P (depositSignals P c b) ⟨c.value, fieldOpening c.opening⟩ ↔
        b.amount7dp < c.value + 2 ^ 128) := by
  have hiff : InRange 128 ((b.amount7dp : Bn254) - c.value) ↔ b.amount7dp < c.value + 2 ^ 128 := by
    rw [← Int.cast_natCast c.value, ← Int.cast_sub, inRange_intCast (by omega) (by omega)]
    omega
  refine ⟨?_, fun h => hiff.1 h.surplus, fun h => ⟨?_, hiff.2 h, inRange_natCast (by norm_num) hv⟩⟩
  · rw [buildDeposit, require_of hle, ok_bind, require_of hasset]
    rfl
  · have hcast : ((b.assetIdHash : ℤ) : Bn254) = c.assetId := by rw [← hasset, Int.cast_natCast]
    simp only [depositSignals, DepositWit.note, OutputOpening.note, fieldOpening, Bn254Coin.opening,
      Bn254Coin.note, hcast]

/-- **Settlements of one asset.** The builder hands over the input of two spendable coins of one asset
and of outputs that add up to twice the matched amount; the assignment satisfies the circuit exactly
when the matched amount is within both coins, which the builder does not look at. -/
theorem buildMpcSettlement_sat {p : MpcSettlementInput}
    (hA : Spendable P depth ⟨p.stateLeaves, p.stateIndexA, p.assocLabels, p.labelIndexA⟩ p.coinA)
    (hB : Spendable P depth ⟨p.stateLeaves, p.stateIndexB, p.assocLabels, p.labelIndexB⟩ p.coinB)
    (hvA : p.coinA.value < 2 ^ 128) (hvB : p.coinB.value < 2 ^ 128)
    (hoA : p.outCoinA.value < 2 ^ 128) (hoB : p.outCoinB.value < 2 ^ 128)
    (hassets : p.coinA.assetId = p.coinB.assetId)
    (houts : p.outCoinA.assetId = p.coinA.assetId ∧ p.outCoinB.assetId = p.coinA.assetId)
    (hcons : (p.outCoinA.value : ℤ) + p.outCoinB.value = p.matchedAmount7dp * 2) :
    ∃ x, buildMpcSettlement (wordHash P) depth p = .ok x ∧
      (MpcSettlement P depth associationDepth (x.publicSignals P) x.privateSignals ↔
        p.matchedAmount7dp ≤ p.coinA.value ∧ p.matchedAmount7dp ≤ p.coinB.value) := by
  obtain ⟨T, hT, hTroot, πA, hπA, hstateA⟩ := located_proof (P := P) hA.depth hA.state hA.stateLeaf
  obtain ⟨T', hT', -, πB, hπB, hstateB⟩ := located_proof (P := P) hB.depth hB.state hB.stateLeaf
  obtain ⟨S, hS, hSroot, ρA, hρA, hlabelA⟩ :=
    located_proof (P := P) (by norm_num [associationDepth]) hA.labels hA.label
  obtain ⟨S', hS', -, ρB, hρB, hlabelB⟩ :=
    located_proof (P := P) (by norm_num [associationDepth]) hB.labels hB.label
  obtain rfl : T = T' := Except.ok.inj (hT.symm.trans hT')
  obtain rfl : S = S' := Except.ok.inj (hS.symm.trans hS')
  dsimp only at hπA hπB hρA hρB
  refine ⟨p.input T S πA πB ρA ρB, ?_, fun hsat => ?_, fun hm => ?_⟩
  · simp only [buildMpcSettlement, require_of hassets, require_of houts, require_of hcons,
      require_of hA.stateLeaf, require_of hB.stateLeaf, require_of hA.label, require_of hB.label,
      hT, hπA, hπB, hS, hρA, hρB, Except.mapError, ok_bind]
    rfl
  · have hrA : InRange 128 ((p.coinA.value - p.matchedAmount7dp : ℤ) : Bn254) := by
      rw [Int.cast_sub, Int.cast_natCast]
      exact hsat.remainA
    have hrB : InRange 128 ((p.coinB.value - p.matchedAmount7dp : ℤ) : Bn254) := by
      rw [Int.cast_sub, Int.cast_natCast]
      exact hsat.remainB
    rw [inRange_intCast (by omega) (by omega)] at hrA hrB
    omega
  · obtain ⟨hmA, hmB⟩ := hm
    have hrA : InRange 128 ((p.coinA.value - p.matchedAmount7dp : ℤ) : Bn254) :=
      (inRange_intCast (by omega) (by omega)).2 (by omega)
    have hrB : InRange 128 ((p.coinB.value - p.matchedAmount7dp : ℤ) : Bn254) :=
      (inRange_intCast (by omega) (by omega)).2 (by omega)
    rw [Int.cast_sub, Int.cast_natCast] at hrA hrB
    have hsum := congrArg (Int.cast : ℤ → Bn254) hcons
    push_cast at hsum
    have hcA : MerkleRoot P depth (p.coinA.note.commitment P) (p.stateIndexA : Bn254)
        (fun l => ((πA.siblings.getD l 0 : ℕ) : Bn254)) (T.root : ℕ) := by
      rw [← hA.minted.cast]
      exact hstateA
    have hcB : MerkleRoot P depth (p.coinB.note.commitment P) (p.stateIndexB : Bn254)
        (fun l => ((πB.siblings.getD l 0 : ℕ) : Bn254)) (T.root : ℕ) := by
      rw [← hB.minted.cast]
      exact hstateB
    rw [Bn254Coin.note, ← hassets] at hcB
    exact ⟨⟨hcA, hlabelA, rfl⟩, ⟨hcB, hlabelB, rfl⟩, rfl, rfl, hrA, hrB, hsum⟩

/-- A coin of asset 11 under the hash that adds up its inputs. -/
def sumCoin (value label nullifier : ℕ) : Bn254Coin := generateCoin List.sum value 11 label nullifier 0

/-- Coins of 5 and 6, matched for `matched` each. -/
def fiveAndSix (matched : ℕ) : MpcSettlementInput where
  coinA := sumCoin 5 7 1
  coinB := sumCoin 6 8 2
  outCoinA := sumCoin matched 9 3
  outCoinB := sumCoin matched 10 4
  stateLeaves := [(sumCoin 5 7 1).commitment, (sumCoin 6 8 2).commitment]
  stateIndexA := 0
  stateIndexB := 1
  assocLabels := [7, 8]
  labelIndexA := 0
  labelIndexB := 1
  matchedAmount7dp := matched
  batchHash := 7
  poolId := 1
  chainId := 1
  deadlineLedger := 100

/-- Five of each settle; six do not, and the builder hands them over all the same. -/
theorem buildMpcSettlement_sat_five :
    (∃ x, buildMpcSettlement (wordHash List.sum) 1 (fiveAndSix 5) = .ok x ∧
      MpcSettlement List.sum 1 associationDepth (x.publicSignals List.sum) x.privateSignals) ∧
    ∃ x, buildMpcSettlement (wordHash List.sum) 1 (fiveAndSix 6) = .ok x ∧
      ¬ MpcSettlement List.sum 1 associationDepth (x.publicSignals List.sum) x.privateSignals := by
  have hminted : ∀ v l n, (sumCoin v l n).Minted List.sum := fun v l n =>
    generateCoin_minted ..
  have hA : Spendable List.sum 1 ⟨(fiveAndSix 0).stateLeaves, 0, [7, 8], 0⟩ (sumCoin 5 7 1) :=
    ⟨hminted 5 7 1, rfl, rfl, le_rfl, (by decide : 2 ≤ 4), by decide⟩
  have hB : Spendable List.sum 1 ⟨(fiveAndSix 0).stateLeaves, 1, [7, 8], 1⟩ (sumCoin 6 8 2) :=
    ⟨hminted 6 8 2, rfl, rfl, le_rfl, (by decide : 2 ≤ 4), by decide⟩
  have hsat := fun m : ℕ => fun hm : m < 2 ^ 128 => buildMpcSettlement_sat (p := fiveAndSix m) hA hB
    (by decide : 5 < 2 ^ 128) (by decide : 6 < 2 ^ 128) hm hm rfl ⟨rfl, rfl⟩ (mul_two _).symm
  obtain ⟨x, hx, hiff⟩ := hsat 5 (by decide)
  obtain ⟨y, hy, hiff'⟩ := hsat 6 (by decide)
  refine ⟨⟨x, hx, hiff.2 ⟨by decide, by decide⟩⟩, y, hy, fun h => ?_⟩
  exact absurd (hiff'.1 h).1 (by decide)

end

end ShadePay.Proving
