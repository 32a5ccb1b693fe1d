import ShadePay.Circuit.Gadgets

/-!
# The circuit templates

Each template of `circuits/` that a settlement contract verifies, as a constraint system: the public
signals in their on-chain order, the private inputs, and a structure with one field per group of
constraints. The templates are stated once for any prime field and any Poseidon; the `_bn254`
sources and the BLS12-381 ones are the two instances. A constraint of the form
`signal xBind <== x * x` fixes the auxiliary signal and nothing else and is left out.

The public signals are records over an arbitrary type: a contract reads them as machine words, the
circuit as field elements, and `map` goes from one to the other.
-/

namespace ShadePay

/-! ## Public signals -/

/-- `withdraw_public`: 18 signals. -/
structure WithdrawPub (α : Type) where
  nullifierHash : α
  operationType : α
  withdrawnValue : α
  recipientHash : α
  relayerFee : α
  deadline : α
  stateRoot : α
  associationRoot : α
  poolId : α
  chainId : α
  quoteHash : α
  intentHash : α
  fillReceiptHash : α
  destinationDomain : α
  destinationRecipient : α
  maxFee : α
  minFinalityThreshold : α
  assetId : α
deriving DecidableEq

/-- `private_transfer`: 9 signals. -/
structure TransferPub (α : Type) where
  nullifierHash : α
  outputCommitment : α
  feePublic : α
  stateRoot : α
  associationRoot : α
  poolId : α
  chainId : α
  inputAssetId : α
  outputAssetId : α
deriving DecidableEq

/-- `deposit_note_mint`: 14 signals. -/
structure DepositPub (α : Type) where
  commitment : α
  operationType : α
  sourceDomain : α
  destinationDomain : α
  cctpNonceHash : α
  burnTxHashHash : α
  amount6dp : α
  amount7dp : α
  assetIdHash : α
  recipientPool : α
  encryptedNotePayloadHash : α
  policyIdHash : α
  poolId : α
  chainId : α
deriving DecidableEq

/-- `mpc_settlement`: 12 signals. -/
structure MpcPub (α : Type) where
  nullifierHashA : α
  nullifierHashB : α
  outputCommitmentA : α
  outputCommitmentB : α
  stateRoot : α
  associationRoot : α
  batchHash : α
  poolId : α
  chainId : α
  matchedAmount7dp : α
  deadline : α
  assetId : α
deriving DecidableEq

/-- `mpc_priced_settlement`: 20 signals. -/
structure MpcPricedPub (α : Type) where
  nullifierHashA : α
  nullifierHashB : α
  outputCommitmentA : α
  outputCommitmentB : α
  stateRoot : α
  associationRoot : α
  batchHash : α
  poolId : α
  chainId : α
  deadline : α
  inputAssetA : α
  outputAssetA : α
  inputAssetB : α
  outputAssetB : α
  matchedAmountA : α
  matchedAmountB : α
  priceScaled : α
  priceScale : α
  minOutputA : α
  minOutputB : α
deriving DecidableEq

/-- `stream_open`: 13 signals. -/
structure StreamOpenPub (α : Type) where
  inputNullifierHash : α
  changeCommitment : α
  reclaimCommitment : α
  stateRoot : α
  associationRoot : α
  poolId : α
  chainId : α
  channelId : α
  payerAx : α
  payerAy : α
  cap : α
  expiry : α
  assetId : α
deriving DecidableEq

/-- `stream_settle`: 11 signals. -/
structure StreamSettlePub (α : Type) where
  payeeCommitment : α
  refundCommitment : α
  associationRoot : α
  poolId : α
  chainId : α
  channelId : α
  payerAx : α
  payerAy : α
  cap : α
  cumulative : α
  assetId : α
deriving DecidableEq

section
variable {α β : Type} (f : α → β)

/-- The signals as the array the verifier receives. -/
def WithdrawPub.toList (x : WithdrawPub α) : List α :=
  [x.nullifierHash, x.operationType, x.withdrawnValue, x.recipientHash, x.relayerFee, x.deadline,
    x.stateRoot, x.associationRoot, x.poolId, x.chainId, x.quoteHash, x.intentHash,
    x.fillReceiptHash, x.destinationDomain, x.destinationRecipient, x.maxFee,
    x.minFinalityThreshold, x.assetId]

def TransferPub.toList (x : TransferPub α) : List α :=
  [x.nullifierHash, x.outputCommitment, x.feePublic, x.stateRoot, x.associationRoot, x.poolId,
    x.chainId, x.inputAssetId, x.outputAssetId]

def DepositPub.toList (x : DepositPub α) : List α :=
  [x.commitment, x.operationType, x.sourceDomain, x.destinationDomain, x.cctpNonceHash,
    x.burnTxHashHash, x.amount6dp, x.amount7dp, x.assetIdHash, x.recipientPool,
    x.encryptedNotePayloadHash, x.policyIdHash, x.poolId, x.chainId]

def MpcPub.toList (x : MpcPub α) : List α :=
  [x.nullifierHashA, x.nullifierHashB, x.outputCommitmentA, x.outputCommitmentB, x.stateRoot,
    x.associationRoot, x.batchHash, x.poolId, x.chainId, x.matchedAmount7dp, x.deadline, x.assetId]

def MpcPricedPub.toList (x : MpcPricedPub α) : List α :=
  [x.nullifierHashA, x.nullifierHashB, x.outputCommitmentA, x.outputCommitmentB, x.stateRoot,
    x.associationRoot, x.batchHash, x.poolId, x.chainId, x.deadline, x.inputAssetA, x.outputAssetA,
    x.inputAssetB, x.outputAssetB, x.matchedAmountA, x.matchedAmountB, x.priceScaled, x.priceScale,
    x.minOutputA, x.minOutputB]

def StreamOpenPub.toList (x : StreamOpenPub α) : List α :=
  [x.inputNullifierHash, x.changeCommitment, x.reclaimCommitment, x.stateRoot, x.associationRoot,
    x.poolId, x.chainId, x.channelId, x.payerAx, x.payerAy, x.cap, x.expiry, x.assetId]

def StreamSettlePub.toList (x : StreamSettlePub α) : List α :=
  [x.payeeCommitment, x.refundCommitment, x.associationRoot, x.poolId, x.chainId, x.channelId,
    x.payerAx, x.payerAy, x.cap, x.cumulative, x.assetId]

def WithdrawPub.map (x : WithdrawPub α) : WithdrawPub β :=
  ⟨f x.nullifierHash, f x.operationType, f x.withdrawnValue, f x.recipientHash, f x.relayerFee,
    f x.deadline, f x.stateRoot, f x.associationRoot, f x.poolId, f x.chainId, f x.quoteHash,
    f x.intentHash, f x.fillReceiptHash, f x.destinationDomain, f x.destinationRecipient,
    f x.maxFee, f x.minFinalityThreshold, f x.assetId⟩

def TransferPub.map (x : TransferPub α) : TransferPub β :=
  ⟨f x.nullifierHash, f x.outputCommitment, f x.feePublic, f x.stateRoot, f x.associationRoot,
    f x.poolId, f x.chainId, f x.inputAssetId, f x.outputAssetId⟩

def DepositPub.map (x : DepositPub α) : DepositPub β :=
  ⟨f x.commitment, f x.operationType, f x.sourceDomain, f x.destinationDomain, f x.cctpNonceHash,
    f x.burnTxHashHash, f x.amount6dp, f x.amount7dp, f x.assetIdHash, f x.recipientPool,
    f x.encryptedNotePayloadHash, f x.policyIdHash, f x.poolId, f x.chainId⟩

def MpcPub.map (x : MpcPub α) : MpcPub β :=
  ⟨f x.nullifierHashA, f x.nullifierHashB, f x.outputCommitmentA, f x.outputCommitmentB,
    f x.stateRoot, f x.associationRoot, f x.batchHash, f x.poolId, f x.chainId,
    f x.matchedAmount7dp, f x.deadline, f x.assetId⟩

def MpcPricedPub.map (x : MpcPricedPub α) : MpcPricedPub β :=
  ⟨f x.nullifierHashA, f x.nullifierHashB, f x.outputCommitmentA, f x.outputCommitmentB,
    f x.stateRoot, f x.associationRoot, f x.batchHash, f x.poolId, f x.chainId, f x.deadline,
    f x.inputAssetA, f x.outputAssetA, f x.inputAssetB, f x.outputAssetB, f x.matchedAmountA,
    f x.matchedAmountB, f x.priceScaled, f x.priceScale, f x.minOutputA, f x.minOutputB⟩

def StreamOpenPub.map (x : StreamOpenPub α) : StreamOpenPub β :=
  ⟨f x.inputNullifierHash, f x.changeCommitment, f x.reclaimCommitment, f x.stateRoot,
    f x.associationRoot, f x.poolId, f x.chainId, f x.channelId, f x.payerAx, f x.payerAy, f x.cap,
    f x.expiry, f x.assetId⟩

def StreamSettlePub.map (x : StreamSettlePub α) : StreamSettlePub β :=
  ⟨f x.payeeCommitment, f x.refundCommitment, f x.associationRoot, f x.poolId, f x.chainId,
    f x.channelId, f x.payerAx, f x.payerAy, f x.cap, f x.cumulative, f x.assetId⟩

end

/-! ## Arrays and records -/

section
variable {α β : Type}

/-- Eighteen signals are those of a withdrawal. -/
theorem WithdrawPub.exists_toList {l : List α} (h : l.length = 18) : ∃ x : WithdrawPub α, l = x.toList := by
  match l, h with
  | [a0, a1, a2, a3, a4, a5, a6, a7, a8, a9, a10, a11, a12, a13, a14, a15, a16, a17], _ => exact
      ⟨⟨a0, a1, a2, a3, a4, a5, a6, a7, a8, a9, a10, a11, a12, a13, a14, a15, a16, a17⟩, rfl⟩

@[simp] theorem WithdrawPub.length_toList (x : WithdrawPub α) : x.toList.length = 18 := rfl

@[simp] theorem WithdrawPub.toList_map (f : α → β) (x : WithdrawPub α) :
    (x.map f).toList = x.toList.map f := rfl

/-- The list of signals determines them. -/
theorem WithdrawPub.toList_injective : Function.Injective (WithdrawPub.toList : WithdrawPub α → List α) := by
  rintro ⟨⟩ ⟨⟩ h
  simpa [WithdrawPub.toList] using h

/-- Nine signals are those of a transfer. -/
theorem TransferPub.exists_toList {l : List α} (h : l.length = 9) : ∃ x : TransferPub α, l = x.toList := by
  match l, h with
  | [a0, a1, a2, a3, a4, a5, a6, a7, a8], _ => exact ⟨⟨a0, a1, a2, a3, a4, a5, a6, a7, a8⟩, rfl⟩

@[simp] theorem TransferPub.length_toList (x : TransferPub α) : x.toList.length = 9 := rfl

@[simp] theorem TransferPub.toList_map (f : α → β) (x : TransferPub α) :
    (x.map f).toList = x.toList.map f := rfl

/-- The list of signals determines them. -/
theorem TransferPub.toList_injective : Function.Injective (TransferPub.toList : TransferPub α → List α) := by
  rintro ⟨⟩ ⟨⟩ h
  simpa [TransferPub.toList] using h

/-- Fourteen signals are those of a deposit. -/
theorem DepositPub.exists_toList {l : List α} (h : l.length = 14) : ∃ x : DepositPub α, l = x.toList := by
  match l, h with
  | [a0, a1, a2, a3, a4, a5, a6, a7, a8, a9, a10, a11, a12, a13], _ => exact ⟨⟨a0, a1, a2, a3, a4,
      a5, a6, a7, a8, a9, a10, a11, a12, a13⟩, rfl⟩

@[simp] theorem DepositPub.length_toList (x : DepositPub α) : x.toList.length = 14 := rfl

@[simp] theorem DepositPub.toList_map (f : α → β) (x : DepositPub α) :
    (x.map f).toList = x.toList.map f := rfl

/-- The list of signals determines them. -/
theorem DepositPub.toList_injective : Function.Injective (DepositPub.toList : DepositPub α → List α) := by
  rintro ⟨⟩ ⟨⟩ h
  simpa [DepositPub.toList] using h

/-- Twelve signals are those of a committee settlement. -/
theorem MpcPub.exists_toList {l : List α} (h : l.length = 12) : ∃ x : MpcPub α, l = x.toList := by
  match l, h with
  | [a0, a1, a2, a3, a4, a5, a6, a7, a8, a9, a10, a11], _ => exact ⟨⟨a0, a1, a2, a3, a4, a5, a6,
      a7, a8, a9, a10, a11⟩, rfl⟩

@[simp] theorem MpcPub.length_toList (x : MpcPub α) : x.toList.length = 12 := rfl

@[simp] theorem MpcPub.toList_map (f : α → β) (x : MpcPub α) :
    (x.map f).toList = x.toList.map f := rfl

/-- The list of signals determines them. -/
theorem MpcPub.toList_injective : Function.Injective (MpcPub.toList : MpcPub α → List α) := by
  rintro ⟨⟩ ⟨⟩ h
  simpa [MpcPub.toList] using h

/-- Twenty signals are those of a priced settlement. -/
theorem MpcPricedPub.exists_toList {l : List α} (h : l.length = 20) : ∃ x : MpcPricedPub α, l = x.toList := by
  match l, h with
  | [a0, a1, a2, a3, a4, a5, a6, a7, a8, a9, a10, a11, a12, a13, a14, a15, a16, a17, a18, a19], _
      => exact ⟨⟨a0, a1, a2, a3, a4, a5, a6, a7, a8, a9, a10, a11, a12, a13, a14, a15, a16, a17,
      a18, a19⟩, rfl⟩

@[simp] theorem MpcPricedPub.length_toList (x : MpcPricedPub α) : x.toList.length = 20 := rfl

@[simp] theorem MpcPricedPub.toList_map (f : α → β) (x : MpcPricedPub α) :
    (x.map f).toList = x.toList.map f := rfl

/-- The list of signals determines them. -/
theorem MpcPricedPub.toList_injective : Function.Injective (MpcPricedPub.toList : MpcPricedPub α → List α) := by
  rintro ⟨⟩ ⟨⟩ h
  simpa [MpcPricedPub.toList] using h

@[simp] theorem StreamOpenPub.length_toList (x : StreamOpenPub α) : x.toList.length = 13 := rfl

@[simp] theorem StreamOpenPub.toList_map (f : α → β) (x : StreamOpenPub α) :
    (x.map f).toList = x.toList.map f := rfl

/-- The list of signals determines them. -/
theorem StreamOpenPub.toList_injective : Function.Injective (StreamOpenPub.toList : StreamOpenPub α → List α) := by
  rintro ⟨⟩ ⟨⟩ h
  simpa [StreamOpenPub.toList] using h

@[simp] theorem StreamSettlePub.length_toList (x : StreamSettlePub α) : x.toList.length = 11 := rfl

@[simp] theorem StreamSettlePub.toList_map (f : α → β) (x : StreamSettlePub α) :
    (x.map f).toList = x.toList.map f := rfl

/-- The list of signals determines them. -/
theorem StreamSettlePub.toList_injective : Function.Injective (StreamSettlePub.toList : StreamSettlePub α → List α) := by
  rintro ⟨⟩ ⟨⟩ h
  simpa [StreamSettlePub.toList] using h

end

/-! ## Private inputs -/

variable {F : Type}

/-- An input note with its two Merkle paths, as a spend circuit takes it. -/
structure SpendInput (F : Type) where
  label : F
  nullifier : F
  secret : F
  stateIndex : F
  stateSiblings : ℕ → F
  labelIndex : F
  labelSiblings : ℕ → F

/-- The private part of an output note. -/
structure OutputOpening (F : Type) where
  label : F
  nullifier : F
  secret : F

/-- The note a spend input opens, of the given asset and value. -/
def SpendInput.note (i : SpendInput F) (assetId value : F) : Note F :=
  ⟨assetId, value, i.label, i.nullifier, i.secret⟩

/-- The note an output opening opens, of the given asset and value. -/
def OutputOpening.note (o : OutputOpening F) (assetId value : F) : Note F :=
  ⟨assetId, value, o.label, o.nullifier, o.secret⟩

section
variable [Field F]

/-- The block every spend circuit repeats for an input note: the note is a leaf under `stateRoot`,
its label a leaf under `associationRoot`, and the nullifier hash is the domain-separated one. -/
structure SpendsNote (P : List F → F) (treeDepth associationDepth : ℕ) (i : SpendInput F)
    (n : Note F) (stateRoot associationRoot poolId chainId nullifierHash : F) : Prop where
  /-- `stateRoot === stateRootChecker.out`. -/
  state : MerkleRoot P treeDepth (n.commitment P) i.stateIndex i.stateSiblings stateRoot
  /-- `associationRoot === associationRootChecker.out`. -/
  association : MerkleRoot P associationDepth n.label i.labelIndex i.labelSiblings associationRoot
  /-- `nullifierHash <== nullifierHasher.out`. -/
  nullifier : nullifierHash = n.nullifierHash P poolId chainId

/-! ## Constraint systems -/

/-- Private inputs of `Withdraw`. -/
structure WithdrawWit (F : Type) where
  value : F
  input : SpendInput F

/-- The note a `Withdraw` assignment spends. -/
def WithdrawWit.note (w : WithdrawWit F) (x : WithdrawPub F) : Note F :=
  w.input.note x.assetId w.value

/-- `Withdraw(treeDepth, associationDepth)`. -/
structure Withdraw (P : List F → F) (treeDepth associationDepth : ℕ) (x : WithdrawPub F)
    (w : WithdrawWit F) : Prop where
  spends : SpendsNote P treeDepth associationDepth w.input (w.note x) x.stateRoot
    x.associationRoot x.poolId x.chainId x.nullifierHash
  /-- `remainingValueRangeCheck.in <== value - withdrawnValue`. -/
  remainingValue : InRange 128 (w.value - x.withdrawnValue)
  /-- `withdrawnValueRangeCheck.in <== withdrawnValue`. -/
  withdrawnValue : InRange 128 x.withdrawnValue
  /-- `netRangeCheck.in <== withdrawnValue - relayerFee`. -/
  netOutput : InRange 128 (x.withdrawnValue - x.relayerFee)
  /-- `feeRangeCheck.in <== relayerFee`. -/
  relayerFee : InRange 128 x.relayerFee

/-- Private inputs of `PrivateTransfer`. -/
structure TransferWit (F : Type) where
  inValue : F
  input : SpendInput F
  outValue : F
  output : OutputOpening F

def TransferWit.note (w : TransferWit F) (x : TransferPub F) : Note F :=
  w.input.note x.inputAssetId w.inValue

def TransferWit.outNote (w : TransferWit F) (x : TransferPub F) : Note F :=
  w.output.note x.outputAssetId w.outValue

/-- `PrivateTransfer(treeDepth, associationDepth)`. -/
structure PrivateTransfer (P : List F → F) (treeDepth associationDepth : ℕ) (x : TransferPub F)
    (w : TransferWit F) : Prop where
  /-- `inputAssetId === outputAssetId`. -/
  sameAsset : x.inputAssetId = x.outputAssetId
  spends : SpendsNote P treeDepth associationDepth w.input (w.note x) x.stateRoot
    x.associationRoot x.poolId x.chainId x.nullifierHash
  /-- `outputCommitment === outHasher.commitment`. -/
  output : x.outputCommitment = (w.outNote x).commitment P
  /-- `inValue === outValue + feePublic`. -/
  conservation : w.inValue = w.outValue + x.feePublic
  outRange : InRange 128 w.outValue
  feeRange : InRange 128 x.feePublic

/-- Private inputs of `DepositNoteMint`. -/
structure DepositWit (F : Type) where
  value : F
  opening : OutputOpening F

def DepositWit.note (w : DepositWit F) (x : DepositPub F) : Note F :=
  w.opening.note x.assetIdHash w.value

/-- `DepositNoteMint()`. -/
structure DepositNoteMint (P : List F → F) (x : DepositPub F) (w : DepositWit F) : Prop where
  /-- `commitment <== commitmentHasher.commitment`. -/
  commitment : x.commitment = (w.note x).commitment P
  /-- `surplusRangeCheck.in <== amount7dp - value`. -/
  surplus : InRange 128 (x.amount7dp - w.value)
  value : InRange 128 w.value

/-- Private inputs of `MpcSettlement`. -/
structure MpcWit (F : Type) where
  valueA : F
  inputA : SpendInput F
  outValueA : F
  outputA : OutputOpening F
  valueB : F
  inputB : SpendInput F
  outValueB : F
  outputB : OutputOpening F

def MpcWit.noteA (w : MpcWit F) (x : MpcPub F) : Note F := w.inputA.note x.assetId w.valueA
def MpcWit.noteB (w : MpcWit F) (x : MpcPub F) : Note F := w.inputB.note x.assetId w.valueB
def MpcWit.outNoteA (w : MpcWit F) (x : MpcPub F) : Note F := w.outputA.note x.assetId w.outValueA
def MpcWit.outNoteB (w : MpcWit F) (x : MpcPub F) : Note F := w.outputB.note x.assetId w.outValueB

/-- `MpcSettlement(treeDepth, associationDepth)`. The two output values enter the conservation
equation only: neither is range-checked. -/
structure MpcSettlement (P : List F → F) (treeDepth associationDepth : ℕ) (x : MpcPub F)
    (w : MpcWit F) : Prop where
  spendsA : SpendsNote P treeDepth associationDepth w.inputA (w.noteA x) x.stateRoot
    x.associationRoot x.poolId x.chainId x.nullifierHashA
  spendsB : SpendsNote P treeDepth associationDepth w.inputB (w.noteB x) x.stateRoot
    x.associationRoot x.poolId x.chainId x.nullifierHashB
  outputA : x.outputCommitmentA = (w.outNoteA x).commitment P
  outputB : x.outputCommitmentB = (w.outNoteB x).commitment P
  /-- `rngA.in <== valueA - matchedAmount7dp`. -/
  remainA : InRange 128 (w.valueA - x.matchedAmount7dp)
  /-- `rngB.in <== valueB - matchedAmount7dp`. -/
  remainB : InRange 128 (w.valueB - x.matchedAmount7dp)
  /-- `outSum === expectedSum`. -/
  conservation : w.outValueA + w.outValueB = x.matchedAmount7dp * 2

/-- Private inputs of `MpcPricedSettlement`. -/
structure MpcPricedWit (F : Type) where
  inputA : SpendInput F
  outputA : OutputOpening F
  inputB : SpendInput F
  outputB : OutputOpening F

def MpcPricedWit.noteA (w : MpcPricedWit F) (x : MpcPricedPub F) : Note F :=
  w.inputA.note x.inputAssetA x.matchedAmountA
def MpcPricedWit.noteB (w : MpcPricedWit F) (x : MpcPricedPub F) : Note F :=
  w.inputB.note x.inputAssetB x.matchedAmountB
def MpcPricedWit.outNoteA (w : MpcPricedWit F) (x : MpcPricedPub F) : Note F :=
  w.outputA.note x.outputAssetA x.matchedAmountB
def MpcPricedWit.outNoteB (w : MpcPricedWit F) (x : MpcPricedPub F) : Note F :=
  w.outputB.note x.outputAssetB x.matchedAmountA

/-- `MpcPricedSettlement(treeDepth, associationDepth)`. -/
structure MpcPricedSettlement (P : List F → F) (treeDepth associationDepth : ℕ)
    (x : MpcPricedPub F) (w : MpcPricedWit F) : Prop where
  /-- `outputAssetA === inputAssetB`. -/
  assetA : x.outputAssetA = x.inputAssetB
  /-- `outputAssetB === inputAssetA`. -/
  assetB : x.outputAssetB = x.inputAssetA
  /-- `sameAsset.out === 0`. -/
  crossAsset : IsEqual x.inputAssetA x.inputAssetB 0
  /-- `priceScale === 1000000000`. -/
  scale : x.priceScale = 1000000000
  spendsA : SpendsNote P treeDepth associationDepth w.inputA (w.noteA x) x.stateRoot
    x.associationRoot x.poolId x.chainId x.nullifierHashA
  spendsB : SpendsNote P treeDepth associationDepth w.inputB (w.noteB x) x.stateRoot
    x.associationRoot x.poolId x.chainId x.nullifierHashB
  outputA : x.outputCommitmentA = (w.outNoteA x).commitment P
  outputB : x.outputCommitmentB = (w.outNoteB x).commitment P
  /-- `le.out === 1` on `scaled` and `prod`. -/
  priceLe : LessEqThan 128 (x.matchedAmountB * x.priceScale) (x.matchedAmountA * x.priceScaled) 1
  /-- `lt.out === 1` on `rem` and `priceScale`. -/
  priceLt : LessThan 64
    (x.matchedAmountA * x.priceScaled - x.matchedAmountB * x.priceScale) x.priceScale 1
  /-- `geA.out === 1`. -/
  minA : GreaterEqThan 64 x.matchedAmountB x.minOutputA 1
  /-- `geB.out === 1`. -/
  minB : GreaterEqThan 64 x.matchedAmountA x.minOutputB 1

/-- Private inputs of `StreamOpen`. -/
structure StreamOpenWit (F : Type) where
  inValue : F
  input : SpendInput F
  change : OutputOpening F
  reclaim : OutputOpening F

def StreamOpenWit.note (w : StreamOpenWit F) (x : StreamOpenPub F) : Note F :=
  w.input.note x.assetId w.inValue
def StreamOpenWit.changeNote (w : StreamOpenWit F) (x : StreamOpenPub F) : Note F :=
  w.change.note x.assetId (w.inValue - x.cap)
def StreamOpenWit.reclaimNote (w : StreamOpenWit F) (x : StreamOpenPub F) : Note F :=
  w.reclaim.note x.assetId x.cap

/-- `StreamOpen(treeDepth, associationDepth)`. -/
structure StreamOpen (P : List F → F) (treeDepth associationDepth : ℕ) (x : StreamOpenPub F)
    (w : StreamOpenWit F) : Prop where
  spends : SpendsNote P treeDepth associationDepth w.input (w.note x) x.stateRoot
    x.associationRoot x.poolId x.chainId x.inputNullifierHash
  /-- `changeRange.in <== inValue - cap`. -/
  changeRange : InRange 128 (w.inValue - x.cap)
  capRange : InRange 128 x.cap
  /-- `changeCommitment === changeHasher.commitment`. -/
  change : x.changeCommitment = (w.changeNote x).commitment P
  /-- `reclaimCommitment === reclaimHasher.commitment`. -/
  reclaim : x.reclaimCommitment = (w.reclaimNote x).commitment P

/-- An EdDSA-Poseidon signature: the voucher's private signals. -/
structure Signature (F : Type) where
  R8x : F
  R8y : F
  S : F

/-- Private inputs of `StreamSettle`. -/
structure StreamSettleWit (F : Type) where
  seq : F
  sig : Signature F
  payee : OutputOpening F
  refund : OutputOpening F

def StreamSettleWit.payeeNote (w : StreamSettleWit F) (x : StreamSettlePub F) : Note F :=
  w.payee.note x.assetId x.cumulative
def StreamSettleWit.refundNote (w : StreamSettleWit F) (x : StreamSettlePub F) : Note F :=
  w.refund.note x.assetId (x.cap - x.cumulative)

/-- The message of a voucher: `Poseidon(channelId, cumulative, seq)`. -/
def voucherMessage (P : List F → F) (channelId cumulative seq : F) : F :=
  P [channelId, cumulative, seq]

/-- `StreamSettle()`. `eddsa Ax Ay M sig` is circomlib's `EdDSAPoseidonVerifier` with `enabled = 1`. -/
structure StreamSettle (P : List F → F) (eddsa : F → F → F → Signature F → Prop)
    (x : StreamSettlePub F) (w : StreamSettleWit F) : Prop where
  /-- `sigVerifier` on the message of the voucher. -/
  signed : eddsa x.payerAx x.payerAy (voucherMessage P x.channelId x.cumulative w.seq) w.sig
  /-- `refundRange.in <== cap - cumulative`. -/
  refundRange : InRange 128 (x.cap - x.cumulative)
  cumulativeRange : InRange 128 x.cumulative
  /-- `payeeCommitment <== payeeHasher.commitment`. -/
  payee : x.payeeCommitment = (w.payeeNote x).commitment P
  /-- `refundCommitment <== refundHasher.commitment`. -/
  refund : x.refundCommitment = (w.refundNote x).commitment P

end

end ShadePay
