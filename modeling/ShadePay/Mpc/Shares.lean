import ShadePay.Mpc.SignedBatch
import ShadePay.Mpc.Sharing
import ShadePay.Lib.JsonText
import ShadePay.Lib.Decoding

/-!
# Shares on their way to the nodes

Both clients split an amount, print each share as JSON and seal it for one node in a `nacl.box`:
`splitAmountForCommittee` of `packages/mpc-crypto/src/committee.ts` and `splitAndEncryptAmount` of
`packages/sdk/src/mpc.ts`. A node opens its box with `decryptShare`. `reconstructAmount_decrypted` says
that what enough nodes decrypt, in any order, gives the amount back, whichever client sealed it.
-/

namespace ShadePay.Mpc

open Stellar Rfq

/-! ## Boxes -/

/-- `nacl.box` on keys and nonces of the right lengths. -/
structure Nacl where
  /-- The public key of a secret key. -/
  publicKey : Bytes32 → Bytes32
  encrypt : List UInt8 → BytesN 24 → Bytes32 → Bytes32 → List UInt8
  decrypt : List UInt8 → BytesN 24 → Bytes32 → Bytes32 → Option (List UInt8)

/-- What is sealed for a key opens with it. -/
def Nacl.Opens (N : Nacl) : Prop :=
  ∀ m nonce sender recipient,
    N.decrypt (N.encrypt m nonce (N.publicKey recipient) sender) nonce (N.publicKey sender) recipient =
      some m

/-- A byte string of a given length. -/
def ofLength (n : ℕ) (bs : List UInt8) : Option (BytesN n) :=
  if h : bs.length = n then some ⟨bs, h⟩ else none

@[simp] theorem ofLength_bytes {n : ℕ} (b : BytesN n) : ofLength n b.bytes = some b := by
  rw [ofLength, dif_pos b.length_eq]

/-- `nacl.box`, which throws on a key or a nonce of another length. -/
def Nacl.box (N : Nacl) (m nonce publicKey : List UInt8) (secretKey : Bytes32) :
    Option (List UInt8) := do
  let pk ← ofLength 32 publicKey
  let nonce ← ofLength 24 nonce
  return N.encrypt m nonce pk secretKey

/-- `nacl.box.open`; also `none` where it throws. -/
def Nacl.boxOpen (N : Nacl) (c nonce publicKey : List UInt8) (secretKey : Bytes32) :
    Option (List UInt8) := do
  let pk ← ofLength 32 publicKey
  let nonce ← ofLength 24 nonce
  N.decrypt c nonce pk secretKey

/-- A fresh key pair, by its secret key, and a fresh nonce. -/
structure Ephemeral where
  secretKey : Bytes32
  nonce : BytesN 24

/-- `CommitteeNodeKeyPair`, by its secret key for encryption and its public key for signatures. -/
structure CommitteeNodeKeyPair where
  nodeId : String
  encryptionSecretKey : Bytes32
  signingPublicKey : Bytes32

/-- The public half. -/
def CommitteeNodeKeyPair.publicKeys (N : Nacl) (kp : CommitteeNodeKeyPair) : NodePublicKeys :=
  ⟨kp.nodeId, N.publicKey kp.encryptionSecretKey, kp.signingPublicKey⟩

/-- What the committee publishes about its nodes. -/
def committeeInfo (N : Nacl) (committee : List CommitteeNodeKeyPair) : List CommitteeNodeInfo :=
  committee.map fun kp => nodePublicInfo (kp.publicKeys N)

/-! ## The clients -/

/-- `encodeShare`. -/
def encodeShare (share : Share) : EncodedShare :=
  ⟨String.ofList (Text.ofInt share.x), String.ofList (Text.ofInt share.y)⟩

/-- The object that is printed. -/
def EncodedShare.json (e : EncodedShare) : Json :=
  .object [(['x'], .string e.x.toList), (['y'], .string e.y.toList)]

/-- `JSON.stringify(share)` as bytes. No number occurs in it. -/
def EncodedShare.plaintext (e : EncodedShare) : List UInt8 :=
  Text.utf8 (Json.print (fun _ => []) e.json)

/-- `Buffer.from(bytes).toString("hex")`. -/
def hexString (bs : List UInt8) : String := String.ofList (Text.hex bs)

section
variable (N : Nacl)

/-- `encryptShareForNode`; `none` when `nacl.box` throws. -/
def encryptShareForNode (share : EncodedShare) (recipientPubkeyHex nodeId : String)
    (ephemeral : Ephemeral) : Option EncryptedShare := do
  let ciphertext ← N.box share.plaintext ephemeral.nonce.bytes (hexBytes recipientPubkeyHex)
    ephemeral.secretKey
  return ⟨nodeId, hexString ciphertext, hexString ephemeral.nonce.bytes,
    hexString (N.publicKey ephemeral.secretKey).bytes⟩

/-- `nodes.map` of a client, from a position on: a share and a draw for each node. -/
def encryptShares (encrypt : EncodedShare → String → String → Ephemeral → Option EncryptedShare)
    (draw : ℕ → Ephemeral) : ℕ → List CommitteeNodeInfo → List Share → Option (List EncryptedShare)
  | i, node :: nodes, share :: shares => do
      let e ← encrypt (encodeShare share) node.encryptionPubkey node.nodeId (draw i)
      let es ← encryptShares encrypt draw (i + 1) nodes shares
      return e :: es
  | _, _, _ => some []

/-- `splitAmountForCommittee`: `none` while it waits for bytes. -/
def splitAmountForCommittee (amount7dpStr : String) (nodes : List CommitteeNodeInfo) (threshold : ℕ)
    (tape : List Buffer) (draw : ℕ → Ephemeral) : Except String (Option (List EncryptedShare)) :=
  match bigInt amount7dpStr with
  | none => .error "SyntaxError"
  | some amount =>
      match shamirSplit amount threshold nodes.length tape with
      | .error e => .error e
      | .ok none => .ok none
      | .ok (some rawShares) =>
          match encryptShares (encryptShareForNode N) draw 0 nodes rawShares with
          | none => .error "nacl.box"
          | some es => .ok (some es)

end

/-- A character that `.` does not match. -/
def isLineEnd (c : Char) : Bool := c.toNat ∈ [10, 13, 0x2028, 0x2029]

/-- `parseInt(s, 16)` of two characters, as an element of a `Uint8Array`. -/
def Sdk.parseByte (c d : Char) : UInt8 :=
  match hexDigit c, hexDigit d with
  | some x, some y => UInt8.ofNat (16 * x + y)
  | some x, none => UInt8.ofNat x
  | none, some y =>
      if Text.isSpace c ∨ c = '+' then UInt8.ofNat y
      else if c = '-' then 0 - UInt8.ofNat y
      else 0
  | none, none => 0

/-- The matches of `/.{2}/g`, parsed. -/
def Sdk.hexPairs : List Char → List UInt8
  | c :: d :: s =>
      if isLineEnd c ∨ isLineEnd d then Sdk.hexPairs (d :: s)
      else Sdk.parseByte c d :: Sdk.hexPairs s
  | _ => []

/-- `fromHex` of the SDK. -/
def Sdk.fromHex (h : String) : List UInt8 := Sdk.hexPairs (strip0x h.toList)

section
variable (N : Nacl)

/-- `encryptShareForNode` of the SDK. -/
def Sdk.encryptShareForNode (share : EncodedShare) (recipientPubkeyHex nodeId : String)
    (ephemeral : Ephemeral) : Option EncryptedShare := do
  let ct ← N.box share.plaintext ephemeral.nonce.bytes (Sdk.fromHex recipientPubkeyHex)
    ephemeral.secretKey
  return ⟨nodeId, hexString ct, hexString ephemeral.nonce.bytes,
    hexString (N.publicKey ephemeral.secretKey).bytes⟩

/-- `splitAndEncryptAmount`: an error when `nacl.box` throws, `none` while it waits for bytes. -/
def Sdk.splitAndEncryptAmount (amount7dp : ℤ) (nodes : List CommitteeNodeInfo) (threshold : ℕ)
    (tape : List Buffer) (draw : ℕ → Ephemeral) : Except String (Option (List EncryptedShare)) :=
  match Sdk.shamirSplit amount7dp threshold nodes.length tape with
  | none => .ok none
  | some shares =>
      match encryptShares (Sdk.encryptShareForNode N) draw 0 nodes shares with
      | none => .error "nacl.box"
      | some es => .ok (some es)

end

/-! ## The nodes -/

section
variable (N : Nacl)

/-- `decryptShare`: whatever value the plaintext is the text of; `none` when it throws. -/
def decryptShare (encrypted : EncryptedShare) (nodeEncryptionSecretKey : Bytes32) : Option Json := do
  let plaintext ← N.boxOpen (hexBytes encrypted.ciphertext) (hexBytes encrypted.nonce)
    (hexBytes encrypted.senderPubkey) nodeEncryptionSecretKey
  Json.parse (Text.decodeUtf8 plaintext)

end

/-- Whether a value counts as true. -/
def truthy : Json → Bool
  | .null => false
  | .bool b => b
  | .number .nan => false
  | .number (.infinity _) => true
  | .number (.finite x) => x.val ≠ 0
  | .string s => s ≠ []
  | .array _ | .object _ => true

section
variable (numberText : Number → List Char)

/-- The number that `BigInt` makes of a field, as a text; a text that it refuses when it throws. -/
def fieldText (name : String) (v : Json) : String :=
  match (v.get name).bind (Json.toBigInt numberText) with
  | some z => String.ofList (Text.ofInt z)
  | none => "undefined"

/-- What the coordinator takes a decrypted value for: nothing unless it counts as true, else a share
with the numbers of its fields. -/
def readShare (v : Json) : Option EncodedShare :=
  if truthy v then some ⟨fieldText numberText "x" v, fieldText numberText "y" v⟩ else none

end

/-! ## What is sealed arrives -/

theorem isSpace_eq (c : Char) : isSpace c = Text.isSpace c := by
  simp [isSpace, Text.isSpace, Bool.decide_or, Bool.decide_and]

/-- Decimal digits are folded up the same way. -/
theorem digits_of_isDigit {cs : List Char} (h : ∀ c ∈ cs, c.isDigit) (acc : ℕ) :
    digits 10 cs acc = some (cs.foldl (fun n c => 10 * n + Text.digitValue c) acc) := by
  induction cs generalizing acc with
  | nil => rfl
  | cons c cs ih =>
      have hc := h c List.mem_cons_self
      have hlt := Text.digitValue_of_isDigit hc
      have hdigit : digit 10 c = some (Text.digitValue c) := by
        rw [Text.digitValue, if_pos hc] at hlt ⊢
        simp only [digit, if_pos hc, if_pos hlt]
      rw [digits, hdigit]
      dsimp only
      rw [ih fun d hd => h d (List.mem_cons_of_mem _ hd), List.foldl_cons, mul_comm acc]

/-- A decimal numeral is read back. -/
theorem numeral_toDigits (n : ℕ) : numeral 10 (Nat.toDigits 10 n) = some n := by
  rw [numeral, if_neg Nat.toDigits_ne_nil, digits_of_isDigit Text.isDigit_toDigits]
  have hspell := Text.ofDigits_toDigits n
  unfold Text.ofDigits at hspell
  split at hspell
  · exact hspell
  · cases hspell

/-- The text of a number that is not negative is read back by `BigInt`. -/
theorem bigInt_ofInt {z : ℤ} (hz : 0 ≤ z) : bigInt (String.ofList (Text.ofInt z)) = some z := by
  obtain ⟨n, rfl⟩ := Int.eq_ofNat_of_zero_le hz
  have htext : Text.ofInt (n : ℤ) = Nat.toDigits 10 n := by
    rw [Text.ofInt, if_neg (by omega), Int.natAbs_natCast]
  have hdigit : ∀ c ∈ Nat.toDigits 10 n, Text.digitValue c < 10 := Text.digitValue_toDigits
  have htrim : ((((Nat.toDigits 10 n).dropWhile isSpace).reverse.dropWhile isSpace).reverse) =
      Nat.toDigits 10 n := by
    rw [funext isSpace_eq]
    exact Text.trim_of_not_isSpace fun c hc => Text.isSpace_of_digitValue (hdigit c hc)
  rw [htext, bigInt, String.toList_ofList, htrim]
  -- a text of digits has neither a sign nor the letter of a base
  split
  · next heq => exact absurd heq Nat.toDigits_ne_nil
  · next heq => exact absurd (hdigit 'x' (by simp [heq])) (by decide)
  · next heq => exact absurd (hdigit 'X' (by simp [heq])) (by decide)
  · next heq => exact absurd (hdigit 'o' (by simp [heq])) (by decide)
  · next heq => exact absurd (hdigit 'O' (by simp [heq])) (by decide)
  · next heq => exact absurd (hdigit 'b' (by simp [heq])) (by decide)
  · next heq => exact absurd (hdigit 'B' (by simp [heq])) (by decide)
  · next heq => exact absurd (hdigit '-' (by simp [heq])) (by decide)
  · next heq => exact absurd (hdigit '+' (by simp [heq])) (by decide)
  · rw [numeral_toDigits]
    rfl

/-- An encoded share is decoded. -/
theorem decodeShare_encodeShare {share : Share} (hx : 0 ≤ share.x) (hy : 0 ≤ share.y) :
    decodeShare (encodeShare share) = some share := by
  rw [decodeShare, encodeShare, bigInt_ofInt hx, bigInt_ofInt hy]
  rfl

/-- An encoded share is read back from its JSON value. -/
theorem readShare_encodeShare (numberText : Number → List Char) (share : Share) :
    readShare numberText (encodeShare share).json = some (encodeShare share) := by
  have hfield : ∀ z : ℤ, (some (Json.string (Text.ofInt z))).bind (Json.toBigInt numberText) = some z :=
    fun z => Text.toBigInt_ofInt z
  have hx : (encodeShare share).json.get "x" = some (.string (Text.ofInt share.x)) := by
    rw [EncodedShare.json, encodeShare, String.toList_ofList, String.toList_ofList]
    rfl
  have hy : (encodeShare share).json.get "y" = some (.string (Text.ofInt share.y)) := by
    rw [EncodedShare.json, encodeShare, String.toList_ofList, String.toList_ofList]
    rfl
  rw [readShare, if_pos (show truthy (encodeShare share).json = true from rfl), fieldText, fieldText, hx, hy, hfield, hfield]
  rfl

/-- The plaintext of a share is parsed back. -/
theorem parse_plaintext (e : EncodedShare) : Json.parse (Text.decodeUtf8 e.plaintext) = some e.json := by
  have hnames : Json.plainNames [['x'], ['y']] := by decide
  rw [EncodedShare.plaintext, Text.decodeUtf8_utf8, Json.parse_print]
  exact ⟨Json.ofFields_eq_self hnames, trivial, trivial, trivial⟩

theorem hexBytes_hexString (bs : List UInt8) : hexBytes (hexString bs) = bs := hexBytes_hex bs

/-- The pairs of digits that `toString("hex")` writes. -/
theorem Sdk.hexPairs_hex (bs : List UInt8) : Sdk.hexPairs (Text.hex bs) = bs := by
  have hdigit : ∀ n < 16, hexDigit (Nat.digitChar n) = some n ∧ isLineEnd (Nat.digitChar n) = false := by
    decide
  induction bs with
  | nil => rfl
  | cons b bs ih =>
      have hb := b.toNat_lt
      obtain ⟨hhigh, hhighEnd⟩ := hdigit (b.toNat / 16) (by omega)
      obtain ⟨hlow, hlowEnd⟩ := hdigit (b.toNat % 16) (by omega)
      rw [Text.hex, List.flatMap_cons, ← Text.hex, Text.hexByte, List.cons_append, List.cons_append,
        List.nil_append, Sdk.hexPairs, if_neg (by simp [hhighEnd, hlowEnd]), ih, Sdk.parseByte, hhigh,
        hlow]
      simp only [Nat.div_add_mod, UInt8.ofNat_toNat]

/-- A hexadecimal text of the client is read back. -/
theorem Sdk.fromHex_hexString (bs : List UInt8) : Sdk.fromHex (hexString bs) = bs := by
  rw [Sdk.fromHex, hexString, String.toList_ofList, strip0x_of_spells (spells_hex bs),
    Sdk.hexPairs_hex]

section
variable {N : Nacl} {kp : CommitteeNodeKeyPair} {committee : List CommitteeNodeKeyPair}
  {share : Share} {ephemeral : Ephemeral}

/-- The share that is sealed for a node. -/
def sealedShare (N : Nacl) (kp : CommitteeNodeKeyPair) (share : Share) (ephemeral : Ephemeral) :
    EncryptedShare where
  nodeId := kp.nodeId
  ciphertext := hexString (N.encrypt (encodeShare share).plaintext ephemeral.nonce
    (N.publicKey kp.encryptionSecretKey) ephemeral.secretKey)
  nonce := hexString ephemeral.nonce.bytes
  senderPubkey := hexString (N.publicKey ephemeral.secretKey).bytes

/-- What the server's package seals for a node. -/
theorem encryptShareForNode_eq : encryptShareForNode N (encodeShare share)
    (nodePublicInfo (kp.publicKeys N)).encryptionPubkey kp.nodeId ephemeral =
      some (sealedShare N kp share ephemeral) := by
  have hkey : hexBytes (nodePublicInfo (kp.publicKeys N)).encryptionPubkey =
      (N.publicKey kp.encryptionSecretKey).bytes := hexBytes_hexString _
  rw [encryptShareForNode, hkey, Nacl.box, ofLength_bytes, ofLength_bytes]
  rfl

/-- What the client seals for a node is the same. -/
theorem Sdk.encryptShareForNode_eq : Sdk.encryptShareForNode N (encodeShare share)
    (nodePublicInfo (kp.publicKeys N)).encryptionPubkey kp.nodeId ephemeral =
      some (sealedShare N kp share ephemeral) := by
  have hkey : Sdk.fromHex (nodePublicInfo (kp.publicKeys N)).encryptionPubkey =
      (N.publicKey kp.encryptionSecretKey).bytes := Sdk.fromHex_hexString _
  rw [Sdk.encryptShareForNode, hkey, Nacl.box, ofLength_bytes, ofLength_bytes]
  rfl

/-- A node decrypts the share that was sealed for it. -/
theorem decryptShare_sealedShare (hN : N.Opens) :
    decryptShare N (sealedShare N kp share ephemeral) kp.encryptionSecretKey =
      some (encodeShare share).json := by
  rw [decryptShare, sealedShare, hexBytes_hexString, hexBytes_hexString, hexBytes_hexString,
    Nacl.boxOpen, ofLength_bytes, ofLength_bytes]
  simp only [Option.bind_eq_bind, Option.bind_some, hN _ _ _ _, parse_plaintext]

/-- The sealed shares of a list of nodes, from a position on. -/
def sealedShares (N : Nacl) (draw : ℕ → Ephemeral) :
    ℕ → List CommitteeNodeKeyPair → List Share → List EncryptedShare
  | i, kp :: committee, share :: shares =>
      sealedShare N kp share (draw i) :: sealedShares N draw (i + 1) committee shares
  | _, _, _ => []

/-- Either client seals a share for each node. -/
theorem encryptShares_eq {encrypt : EncodedShare → String → String → Ephemeral → Option EncryptedShare}
    (h : ∀ kp share ephemeral, encrypt (encodeShare share)
      (nodePublicInfo (kp.publicKeys N)).encryptionPubkey kp.nodeId ephemeral =
        some (sealedShare N kp share ephemeral)) (draw : ℕ → Ephemeral) (i : ℕ) (shares : List Share) :
    encryptShares encrypt draw i (committeeInfo N committee) shares =
      some (sealedShares N draw i committee shares) := by
  induction committee generalizing i shares with
  | nil => rfl
  | cons kp committee ih =>
      cases shares with
      | nil => rfl
      | cons share shares =>
          have hrest := ih (i + 1) shares
          rw [committeeInfo] at hrest ⊢
          rw [List.map_cons, encryptShares]
          have hfirst : encrypt (encodeShare share) (nodePublicInfo (kp.publicKeys N)).encryptionPubkey
            (nodePublicInfo (kp.publicKeys N)).nodeId (draw i) = _ := h kp share (draw i)
          rw [hfirst, hrest]
          rfl

/-- The sealed share at a position. -/
theorem getElem?_sealedShares {draw : ℕ → Ephemeral} {shares : List Share} {i j : ℕ}
    (hkp : committee[j]? = some kp) (hshare : shares[j]? = some share) :
    (sealedShares N draw i committee shares)[j]? = some (sealedShare N kp share (draw (i + j))) := by
  induction committee generalizing i j shares with
  | nil => cases hkp
  | cons kp' committee ih =>
      cases shares with
      | nil => cases hshare
      | cons share' shares =>
          cases j with
          | zero =>
              obtain rfl := Option.some.inj hkp
              obtain rfl := Option.some.inj hshare
              rfl
          | succ j =>
              rw [sealedShares, List.getElem?_cons_succ, ih hkp hshare, Nat.add_right_comm]
              rfl

/-- The sealed shares are addressed to the committee in its order. -/
theorem map_nodeId_sealedShares {draw : ℕ → Ephemeral} {shares : List Share} {i : ℕ}
    (h : shares.length = committee.length) :
    (sealedShares N draw i committee shares).map (·.nodeId) = committee.map (·.nodeId) := by
  induction committee generalizing i shares with
  | nil =>
      cases shares
      · rfl
      · cases h
  | cons kp committee ih =>
      cases shares with
      | nil => cases h
      | cons share shares =>
          rw [sealedShares, List.map_cons, List.map_cons, ih (Nat.succ.inj h)]
          rfl

/-! ## Enough nodes have the amount -/

/-- One of the clients has split an amount for the committee. -/
def Splits (N : Nacl) (committee : List CommitteeNodeKeyPair) (amount : ℤ) (threshold : ℕ)
    (es : List EncryptedShare) : Prop :=
  ∃ tape draw,
    (∃ text, bigInt text = some amount ∧
      splitAmountForCommittee N text (committeeInfo N committee) threshold tape draw = .ok (some es)) ∨
    Sdk.splitAndEncryptAmount N amount (committeeInfo N committee) threshold tape draw = .ok (some es)

variable {amount : ℤ} {threshold : ℕ} {es : List EncryptedShare}

/-- What either client returns is the sealed shares of a polynomial through the amount. -/
theorem Splits.exists_coeffs (h : Splits N committee amount threshold es) :
    ∃ (cs : List ℤ) (draw : ℕ → Ephemeral), cs.length = threshold - 1 ∧
      es = sealedShares N draw 0 committee (sharesOf (modp amount :: cs) committee.length) := by
  have hlen : (committeeInfo N committee).length = committee.length := List.length_map ..
  obtain ⟨tape, draw, ⟨text, htext, h⟩ | h⟩ := h
  · rw [splitAmountForCommittee, htext, hlen] at h
    dsimp only at h
    cases hsplit : shamirSplit amount threshold committee.length tape with
    | error e => simp [hsplit] at h
    | ok all =>
        cases all with
        | none => simp [hsplit] at h
        | some all =>
            obtain ⟨cs, hcs, rfl⟩ := exists_coeffs_of_split (.inl hsplit)
            rw [hsplit] at h
            dsimp only at h
            rw [encryptShares_eq fun _ _ _ => encryptShareForNode_eq] at h
            exact ⟨cs, draw, hcs, (Option.some.inj (Except.ok.inj h)).symm⟩
  · rw [Sdk.splitAndEncryptAmount, hlen] at h
    cases hsplit : Sdk.shamirSplit amount threshold committee.length tape with
    | none => simp [hsplit] at h
    | some all =>
        obtain ⟨cs, hcs, rfl⟩ := exists_coeffs_of_split (.inr hsplit)
        rw [hsplit] at h
        dsimp only at h
        rw [encryptShares_eq fun _ _ _ => Sdk.encryptShareForNode_eq] at h
        exact ⟨cs, draw, hcs, (Option.some.inj (Except.ok.inj h)).symm⟩

theorem length_sharesOf (coeffs : List ℤ) (total : ℕ) : (sharesOf coeffs total).length = total := by
  rw [sharesOf, List.length_map, List.length_range]

/-- The share at a position. -/
def shareAt (coeffs : List ℤ) (j : ℕ) : Share := ⟨(j : ℤ) + 1, evaluate coeffs ((j : ℤ) + 1)⟩

/-- The share at a place. -/
theorem getElem?_shareAt {coeffs : List ℤ} {total j : ℕ} (h : j < total) :
    (sharesOf coeffs total)[j]? = some (shareAt coeffs j) := by
  rw [sharesOf, List.getElem?_map, List.getElem?_range h]
  rfl

theorem shareAt_mem {coeffs : List ℤ} {total j : ℕ} (h : j < total) :
    shareAt coeffs j ∈ sharesOf coeffs total := List.mem_of_getElem? (getElem?_shareAt h)

/-- A share of the polynomial is decoded. -/
theorem decodeShare_shareAt (coeffs : List ℤ) (j : ℕ) :
    decodeShare (encodeShare (shareAt coeffs j)) = some (shareAt coeffs j) := by
  refine decodeShare_encodeShare ?_ ?_
  · show (0 : ℤ) ≤ j + 1
    omega
  · show 0 ≤ evaluate coeffs _
    cases coeffs with
    | nil => exact le_rfl
    | cons c cs => exact modp_nonneg _

/-- The coordinator's reading of what a node decrypts, for the node and the share at a position. -/
def received (N : Nacl) (numberText : Number → List Char) (committee : List CommitteeNodeKeyPair)
    (es : List EncryptedShare) (j : ℕ) : Option EncodedShare := do
  let kp ← committee[j]?
  let e ← es[j]?
  let v ← decryptShare N e kp.encryptionSecretKey
  readShare numberText v

/-- Shares at distinct positions, as many as the threshold, are put together to the amount. -/
theorem reconstructAmount_shareAt {cs : List ℤ} {total : ℕ} (hP : (total : ℤ) < P) {js : List ℕ}
    (hnodup : js.Nodup) (hlt : ∀ j ∈ js, j < total) (hlen : cs.length < js.length) :
    reconstructAmount (js.map fun j => encodeShare (shareAt (modp amount :: cs) j)) =
      some (modp amount) := by
  have hdecode : (js.map fun j => encodeShare (shareAt (modp amount :: cs) j)).mapM decodeShare =
      some (js.map (shareAt (modp amount :: cs))) := by
    clear hnodup hlt hlen
    induction js with
    | nil => rfl
    | cons j js ih =>
        rw [List.map_cons, List.mapM_cons, decodeShare_shareAt, ih]
        rfl
  rw [reconstructAmount, hdecode, Option.map_some]
  have hmem : ∀ s ∈ js.map (shareAt (modp amount :: cs)), s ∈ sharesOf (modp amount :: cs) total := by
    intro s hs
    obtain ⟨j, hj, rfl⟩ := List.mem_map.1 hs
    exact shareAt_mem (hlt j hj)
  have hdistinct : ((js.map (shareAt (modp amount :: cs))).map Share.x).Nodup := by
    rw [List.map_map]
    refine hnodup.map fun i j hij => ?_
    have hx : (i : ℤ) + 1 = j + 1 := hij
    omega
  rw [← List.length_map (shareAt (modp amount :: cs))] at hlen
  exact congrArg some (shamirReconstruct_sharesOf hP hmem hdistinct hlen)

/-- With enough bytes the SDK returns. -/
theorem splits_sealedShares {tape : List Buffer} (draw : ℕ → Ephemeral)
    (h : threshold - 1 ≤ tape.length) :
    Splits N committee amount threshold (sealedShares N draw 0 committee (sharesOf (modp amount ::
      (tape.take (threshold - 1)).map Sdk.randomFieldElement) committee.length)) := by
  have hlen : (committeeInfo N committee).length = committee.length := List.length_map ..
  refine ⟨tape, draw, .inr ?_⟩
  rw [Sdk.splitAndEncryptAmount, Sdk.shamirSplit, if_neg (by omega), hlen]
  dsimp only
  rw [encryptShares_eq fun _ _ _ => Sdk.encryptShareForNode_eq]

/-- **Enough nodes have the amount.** What either client returns has one share for each node, in the
order of the nodes, and what any of them decrypt, as many as the threshold and in any order, is put
together to the amount modulo the prime. -/
theorem reconstructAmount_decrypted (hN : N.Opens) (numberText : Number → List Char)
    (hthreshold : 1 ≤ threshold) (hP : (committee.length : ℤ) < P)
    (h : Splits N committee amount threshold es) :
    es.map (·.nodeId) = committee.map (·.nodeId) ∧
      ∀ js : List ℕ, js.Nodup → (∀ j ∈ js, j < committee.length) → threshold ≤ js.length →
        ∃ shares, js.mapM (received N numberText committee es) = some shares ∧
          reconstructAmount shares = some (modp amount) := by
  obtain ⟨cs, draw, hcs, rfl⟩ := h.exists_coeffs
  refine ⟨map_nodeId_sealedShares (length_sharesOf _ _), fun js hnodup hlt hlen => ?_⟩
  have hmore : cs.length < js.length := by omega
  refine ⟨_, ?_, reconstructAmount_shareAt hP hnodup hlt hmore⟩
  clear hnodup hlen hmore
  induction js with
  | nil => rfl
  | cons j js ih =>
      have hj := hlt j List.mem_cons_self
      have hkp : committee[j]? = some committee[j] := List.getElem?_eq_getElem hj
      have hreceived : received N numberText committee
          (sealedShares N draw 0 committee (sharesOf (modp amount :: cs) committee.length)) j =
            some (encodeShare (shareAt (modp amount :: cs) j)) := by
        rw [received, hkp, getElem?_sealedShares hkp (getElem?_shareAt hj)]
        simp only [Option.bind_eq_bind, Option.bind_some, decryptShare_sealedShare hN,
          readShare_encodeShare]
      rw [List.mapM_cons, hreceived, ih fun i hi => hlt i (List.mem_cons_of_mem _ hi)]
      rfl

end

/-! ## A committee of three -/

/-- A digest of the shared key of two key pairs whose public halves are their secrets. -/
def keyDigest (pk sk : Bytes32) : UInt8 := (pk.bytes.zipWith (· ^^^ ·) sk.bytes).foldl (· ^^^ ·) 0

/-- Boxes that carry a digest of their shared key, and open for this key only. -/
def sampleNacl : Nacl where
  publicKey := id
  encrypt m _ pk sk := keyDigest pk sk :: m
  decrypt c _ pk sk := if c.head? = some (keyDigest pk sk) then some c.tail else none

/-- The box of the sample opens what it seals. -/
theorem sampleNacl_opens : sampleNacl.Opens := by
  intro m nonce sender recipient
  have hcomm : keyDigest sender recipient = keyDigest recipient sender := by
    rw [keyDigest, keyDigest, List.zipWith_comm_of_comm fun _ _ => UInt8.xor_comm _ _]
  simp only [sampleNacl, id_eq, hcomm, List.head?_cons, List.tail_cons, if_true]

/-- A committee of three nodes. -/
def sampleCommittee : List CommitteeNodeKeyPair :=
  ["node-1", "node-2", "node-3"].zipIdx.map fun node => ⟨node.1, .ofNat 32 node.2, .ofNat 32 node.2⟩

/-- The bytes for one coefficient. -/
def sampleTape : List Buffer := [⟨List.replicate 31 0 ++ [7], rfl⟩]

/-- The sealed shares of an amount. -/
def sampleShares (amount : ℤ) : List EncryptedShare :=
  sealedShares sampleNacl (fun i => ⟨.ofNat 32 i, .ofNat 24 i⟩) 0 sampleCommittee
    (sharesOf (modp amount :: (sampleTape.take (2 - 1)).map Sdk.randomFieldElement)
      sampleCommittee.length)

/-- The shares of the sample split their amount. -/
theorem splits_sampleShares (amount : ℤ) :
    Splits sampleNacl sampleCommittee amount 2 (sampleShares amount) :=
  splits_sealedShares _ (show 2 - 1 ≤ sampleTape.length by decide)

/-- Nodes 3 and 1 put an amount of 100 together. -/
theorem reconstructAmount_decrypted_three :
    ∃ shares, [2, 0].mapM (received sampleNacl (fun _ => []) sampleCommittee (sampleShares 100)) =
        some shares ∧
      reconstructAmount shares = some 100 := by
  have hdecrypted := reconstructAmount_decrypted sampleNacl_opens (fun _ => []) (by decide)
    (by decide) (splits_sampleShares 100)
  exact hdecrypted.2 [2, 0] (by decide) (by decide) (by decide)

end ShadePay.Mpc
