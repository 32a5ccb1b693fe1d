import Mathlib.Data.Int.Bitwise
import ShadePay.Lib.Text
import ShadePay.Stellar.SignalCodec
import ShadePay.Stellar.Swap

/-!
# The terms a solver signs and the terms the pool builds

`rfq.ts` prepares an atomic swap: `atomicSwapHash` hashes the byte string of its terms, and the solver
signs the hash. `rfq_settle_atomic_swap` builds the byte string again from its arguments. The two sides
write numbers, words and recipients in different ways: `i128beBytes` shifts and masks an unbounded
integer where the contract has `to_be_bytes`, and the words arrive as hexadecimal digits.
`swap_terms_agree` says that both build one string, which determines the terms it was built from.
-/

namespace ShadePay.Rfq

open Guard Stellar

/-! ## The contract's side -/

/-- The range of an `i128`. -/
def I128 (x : ℤ) : Prop := -2 ^ 127 ≤ x ∧ x < 2 ^ 127

/-- `terms` of `rfq_settle_atomic_swap`, for a recipient whose `to_string` has the bytes `strkey`:
`recipient_hash` copies these into an array of 56. -/
def contractTerms (E : Env) (quoteHash outputAssetId : Bytes32) (quotedOutput minOutput priceScaled : ℤ)
    (strkey : List UInt8) : Except Error (List UInt8) := do
  let buf ← copyIntoSlice 56 strkey
  return State.swapTerms quoteHash outputAssetId quotedOutput minOutput priceScaled
    (hashToField (E.sha256 buf.bytes))

/-- `expected_output` of `rfq_settle_atomic_swap`. -/
def expectedOutput (withdrawnValue priceScaled : ℤ) : Except Error ℤ := do
  require (-2 ^ 127 ≤ withdrawnValue * priceScaled ∧ withdrawnValue * priceScaled < 2 ^ 127) .badAmount
  return (withdrawnValue * priceScaled).tdiv 1000000000

/-! ## The solver's side -/

/-- `strip0x`. -/
def strip0x : List Char → List Char
  | '0' :: 'x' :: s => s
  | s => s

/-- The value of a hexadecimal digit. -/
def hexDigit (c : Char) : Option ℕ :=
  if '0' ≤ c ∧ c ≤ '9' then some (c.toNat - 48)
  else if 'a' ≤ c ∧ c ≤ 'f' then some (c.toNat - 87)
  else if 'A' ≤ c ∧ c ≤ 'F' then some (c.toNat - 55)
  else none

/-- `Buffer.from(s, "hex")`: pairs of digits, up to the first pair that is not one. -/
def bufferFromHex : List Char → List UInt8
  | c :: d :: s =>
      match hexDigit c, hexDigit d with
      | some x, some y => UInt8.ofNat (16 * x + y) :: bufferFromHex s
      | _, _ => []
  | _ => []

/-- The loop of `i128beBytes`, from index `i - 1` down. -/
def i128beLoop : ℕ → ℤ → List UInt8 → List UInt8
  | 0, _, b => b
  | i + 1, x, b => i128beLoop i (x >>> (8 : ℕ)) (b.set i (UInt8.ofNat (x.land 0xff).toNat))

/-- `i128beBytes`. -/
def i128beBytes (v : ℤ) : List UInt8 := i128beLoop 16 v (List.replicate 16 0)

/-- `source.copy(out, start)`. -/
def copy (source out : List UInt8) (start : ℕ) : List UInt8 :=
  out.take start ++ source ++ out.drop (start + source.length)

/-- `recipientHashBytes`. -/
def recipientHashBytes (sha256 : List UInt8 → Bytes32) (strkey : List Char) : List UInt8 :=
  copy ((sha256 (Text.utf8 strkey)).bytes.take 31) (List.replicate 32 0) 1

/-- `AtomicSwapTerms`. -/
structure AtomicSwapTerms where
  quoteHashHex : List Char
  outputAssetIdHex : List Char
  quotedOutput : ℤ
  minOutput : ℤ
  priceScaled : ℤ
  recipientStrkey : List Char

/-- The byte string `atomicSwapHash` hashes. -/
def AtomicSwapTerms.buf (sha256 : List UInt8 → Bytes32) (t : AtomicSwapTerms) : List UInt8 :=
  bufferFromHex (strip0x t.quoteHashHex) ++ bufferFromHex (strip0x t.outputAssetIdHex) ++
    i128beBytes t.quotedOutput ++ i128beBytes t.minOutput ++ i128beBytes t.priceScaled ++
    recipientHashBytes sha256 t.recipientStrkey

/-- `atomicSwapHash`. -/
def atomicSwapHash (sha256 : List UInt8 → Bytes32) (t : AtomicSwapTerms) : List Char :=
  '0' :: 'x' :: Text.hex (sha256 (t.buf sha256)).bytes

/-- `quotedFromPrice`, with the scale `PRICE_SCALE`. -/
def quotedFromPrice (inputAmount priceScaled : ℤ) : ℤ := (inputAmount * priceScaled).tdiv 1000000000

/-! ## Words as digits -/

/-- The digits of a byte string, each of either case. -/
def Spells (s : List Char) (bs : List UInt8) : Prop :=
  s.map hexDigit = bs.flatMap fun b => [some (b.toNat / 16), some (b.toNat % 16)]

/-- A word as 64 digits, with or without `0x`. -/
def HexWord (s : List Char) (w : Bytes32) : Prop :=
  ∃ d, (s = d ∨ s = '0' :: 'x' :: d) ∧ Spells d w.bytes

/-- A hexadecimal text is read as the bytes it spells. -/
theorem bufferFromHex_of_spells {s : List Char} {bs : List UInt8} (h : Spells s bs) :
    bufferFromHex s = bs := by
  induction bs generalizing s with
  | nil =>
      cases List.map_eq_nil_iff.1 h
      rfl
  | cons b bs ih =>
      match s with
      | [] | [_] => simp [Spells] at h
      | c :: d :: s =>
          simp only [Spells, List.map_cons, List.flatMap_cons, List.cons_append, List.nil_append,
            List.cons.injEq] at h
          obtain ⟨hhigh, hlow, hrest⟩ := h
          rw [bufferFromHex, hhigh, hlow, ih hrest]
          simp only [Nat.div_add_mod, UInt8.ofNat_toNat]

/-- `x` is no digit, so digits are left as they are. -/
theorem strip0x_of_spells {s : List Char} {bs : List UInt8} (h : Spells s bs) : strip0x s = s := by
  have hx : 'x' ∉ s := by
    intro hx
    have hmem : hexDigit 'x' ∈ s.map hexDigit := List.mem_map_of_mem hx
    rw [h, List.mem_flatMap] at hmem
    obtain ⟨b, -, hb⟩ := hmem
    simp [show hexDigit 'x' = none by decide] at hb
  unfold strip0x
  split
  · simp at hx
  · rfl

/-- A word is read from its text, with or without a prefix. -/
theorem HexWord.buffer {s : List Char} {w : Bytes32} (h : HexWord s w) :
    bufferFromHex (strip0x s) = w.bytes := by
  obtain ⟨d, rfl | rfl, hd⟩ := h
  · rw [strip0x_of_spells hd, bufferFromHex_of_spells hd]
  · exact bufferFromHex_of_spells hd

/-- The digits `hex` writes. -/
theorem spells_hex (bs : List UInt8) : Spells (Text.hex bs) bs := by
  have hdigit : ∀ n < 16, hexDigit (Nat.digitChar n) = some n := by decide
  induction bs with
  | nil => rfl
  | cons b bs ih =>
      have hb := b.toNat_lt
      rw [Spells, Text.hex, List.flatMap_cons, List.flatMap_cons, List.map_append]
      refine congrArg₂ (· ++ ·) ?_ ih
      simp [Text.hexByte, hdigit (b.toNat / 16) (by omega), hdigit (b.toNat % 16) (by omega)]

/-! ## Integers as bytes -/

/-- `x & 0xff` is the remainder, also of a negative number. -/
theorem land_255 (x : ℤ) : x.land 0xff = x % 256 := by
  cases x with
  | ofNat m =>
      have h : m &&& 255 = m % 256 := Nat.and_two_pow_sub_one_eq_mod m 8
      change ((m &&& 255 : ℕ) : ℤ) = (m : ℤ) % 256
      omega
  | negSucc m =>
      have h : Nat.ldiff 255 m = 2 ^ 8 - (m % 2 ^ 8 + 1) := by
        refine Nat.eq_of_testBit_eq fun i => ?_
        rw [Nat.testBit_ldiff, Nat.testBit_two_pow_sub_succ (Nat.mod_lt _ (by norm_num)),
          Nat.testBit_mod_two_pow, show 255 = 2 ^ 8 - 1 by norm_num, Nat.testBit_two_pow_sub_one]
        by_cases hi : i < 8 <;> simp [hi]
      change ((Nat.ldiff 255 m : ℕ) : ℤ) = Int.negSucc m % 256
      omega

/-- The lowest byte of a number and the bytes above it, counted from the top of a fixed width. -/
theorem emod_pow_succ (x : ℤ) (i : ℕ) :
    x % 256 ^ (i + 1) = 256 * (x / 256 % 256 ^ i) + x % 256 := by
  have hpos : (0 : ℤ) < 256 ^ i := by positivity
  have hx := Int.emod_add_mul_ediv x 256
  have hq := Int.emod_add_mul_ediv (x / 256) (256 ^ i)
  have hlow := Int.emod_lt_of_pos x (show (0 : ℤ) < 256 by norm_num)
  have hlow0 := Int.emod_nonneg x (show (256 : ℤ) ≠ 0 by norm_num)
  have hhigh := Int.emod_lt_of_pos (x / 256) hpos
  have hhigh0 := Int.emod_nonneg (x / 256) hpos.ne'
  refine ((Int.ediv_emod_unique (q := x / 256 / 256 ^ i) (by positivity)).2 ⟨?_, by omega, ?_⟩).2
  · rw [pow_succ]
    linear_combination hx + 256 * hq
  · rw [pow_succ]
    omega

/-- The loop writes the last bytes of a two's complement number. -/
theorem i128beLoop_eq {i : ℕ} {b : List UInt8} (x : ℤ) (hi : i ≤ b.length) :
    i128beLoop i x b = Bytes.ofNat i (x % 256 ^ i).toNat ++ b.drop i := by
  induction i generalizing x b with
  | zero => rfl
  | succ i ih =>
      have hshift : x >>> (8 : ℕ) = x / 256 := Int.shiftRight_eq_div_pow x 8
      have hlow0 := Int.emod_nonneg x (show (256 : ℤ) ≠ 0 by norm_num)
      have hhigh0 := Int.emod_nonneg (x / 256) (show (256 ^ i : ℤ) ≠ 0 by positivity)
      have hhigh : (x % 256 ^ (i + 1)).toNat / 256 = (x / 256 % 256 ^ i).toNat := by
        rw [emod_pow_succ]
        omega
      have hlow : (x % 256 ^ (i + 1)).toNat % 256 = (x % 256).toNat := by
        rw [emod_pow_succ]
        omega
      rw [i128beLoop, ih _ (by rw [List.length_set]; omega), hshift, land_255, Bytes.ofNat_succ_last,
        hhigh, hlow, List.append_assoc, List.singleton_append]
      congr 1
      rw [List.drop_eq_getElem_cons (by rw [List.length_set]; omega), List.getElem_set_self,
        List.drop_set_of_lt (by omega)]

/-- Sixteen steps of the loop are `to_be_bytes`. -/
theorem i128beBytes_eq (x : ℤ) : i128beBytes x = i128Bytes x := by
  rw [i128beBytes, i128beLoop_eq x (by simp), List.drop_eq_nil_of_le (by simp), List.append_nil,
    i128Bytes]
  norm_num

/-! ## Recipients -/

/-- The settler hashes a recipient as the pool does. -/
theorem recipientHashBytes_eq (sha256 : List UInt8 → Bytes32) (strkey : List Char) :
    recipientHashBytes sha256 strkey = (hashToField (sha256 (Text.utf8 strkey))).bytes := by
  simp [recipientHashBytes, copy, hashToField, BytesN.length_eq]

/-- An ASCII text has as many bytes as characters. -/
theorem length_utf8 {s : List Char} (hs : ∀ c ∈ s, c.toNat < 128) :
    (Text.utf8 s).length = s.length := by
  induction s with
  | nil => rfl
  | cons c s ih =>
      have hc : c.utf8Size = 1 := by
        rw [Char.utf8Size_eq_one_iff, UInt32.le_iff_toNat_le]
        exact Nat.le_of_lt_succ (hs c (by simp))
      have htail := ih fun d hd => hs d (by simp [hd])
      rw [Text.utf8] at htail
      rw [Text.utf8, List.flatMap_cons, List.length_append, String.length_utf8EncodeChar, hc, htail,
        List.length_cons, Nat.add_comm]

/-- The pool builds its terms for addresses of 56 characters. -/
theorem contractTerms_eq_ok {E : Env} {q o : Bytes32} {qo mo ps : ℤ} {strkey terms : List UInt8} :
    contractTerms E q o qo mo ps strkey = .ok terms ↔ strkey.length = 56 ∧
      terms = State.swapTerms q o qo mo ps (hashToField (E.sha256 strkey)) := by
  unfold contractTerms copyIntoSlice
  split
  · rename_i h
    simp [h, eq_comm]
  · rename_i h
    simp [h, bind, Except.bind]

/-! ## The two sides -/

/-- The string a solver hashes, in the contract's words. -/
theorem AtomicSwapTerms.buf_eq (sha256 : List UInt8 → Bytes32) {t : AtomicSwapTerms} {q o : Bytes32}
    (hq : HexWord t.quoteHashHex q) (ho : HexWord t.outputAssetIdHex o) :
    t.buf sha256 = State.swapTerms q o t.quotedOutput t.minOutput t.priceScaled
      (hashToField (sha256 (Text.utf8 t.recipientStrkey))) := by
  rw [AtomicSwapTerms.buf, hq.buffer, ho.buffer, i128beBytes_eq, i128beBytes_eq, i128beBytes_eq,
    recipientHashBytes_eq, State.swapTerms]

/-- The string determines all six terms. -/
theorem swapTerms_inj {q o r q' o' r' : Bytes32} {qo mo ps qo' mo' ps' : ℤ} (hqo : I128 qo)
    (hqo' : I128 qo') (hmo : I128 mo) (hmo' : I128 mo') (hps : I128 ps) (hps' : I128 ps')
    (h : State.swapTerms q o qo mo ps r = State.swapTerms q' o' qo' mo' ps' r') :
    q = q' ∧ o = o' ∧ qo = qo' ∧ mo = mo' ∧ ps = ps' ∧ r = r' := by
  obtain ⟨hq, ho, hqob, hmob, hpsb, hr⟩ := swapTerms_fields h
  exact ⟨hq, ho, i128Bytes_injOn hqo hqo' hqob, i128Bytes_injOn hmo hmo' hmob,
    i128Bytes_injOn hps hps' hpsb, hr⟩

/-- The terms and the price rule of `contractTerms` and `expectedOutput` are those of a swap that
succeeds. -/
theorem rfqSettleAtomicSwap_terms {E : Env} {s s' : State} {u v : Address} {proof pub : List UInt8}
    {q i f o pk : Bytes32} {qo mo ps : ℤ} {sig : BytesN 64}
    (h : s.rfqSettleAtomicSwap E u v proof pub q i f o qo mo ps pk sig = .ok s') :
    ∃ terms value, contractTerms E q o qo mo ps u.bytes = .ok terms ∧
      E.ed25519 pk (E.sha256 terms).bytes sig = true ∧
      SwapSigned E s pub u q o qo mo ps pk sig value ∧
      expectedOutput (fr32ToI128 value) ps = .ok qo := by
  obtain ⟨value, -, hs, -, -⟩ := State.rfqSettleAtomicSwap_signed h
  obtain ⟨signals, hp, -, hv⟩ := hs.quote
  simp only [State.rfqSettleAtomicSwap, State.requireNotPaused, State.requireNotExpired, bind_eq_ok,
    require_eq_ok, exists_unit, getSignal_eq_ok] at h
  obtain ⟨-, -, ⟨-, -, -, hps⟩, -, signals', hp', _, -, _, -, value', hv', _, -, _, -, _, -, _, -, -,
    ⟨hpos, -, -⟩, -, hmul, -⟩ := h
  obtain rfl : signals = signals' := Except.ok.inj (hp.symm.trans hp')
  obtain rfl : value = value' := Option.some.inj (hv.symm.trans hv')
  refine ⟨_, value, contractTerms_eq_ok.2 ⟨u.length_eq, rfl⟩, hs.signed, hs, ?_⟩
  have hnonneg : 0 ≤ fr32ToI128 value * ps := mul_nonneg hpos.le hps.le
  rw [expectedOutput, require_of ⟨by omega, hmul⟩, ok_bind, Int.tdiv_eq_ediv_of_nonneg hnonneg,
    hs.price]
  rfl

/-- **What the solver has signed.** When the pool settles the swap of a solver's terms, its signature is
over the word whose digits `atomicSwapHash` gives the solver. -/
theorem signed_atomicSwapHash {E : Env} {s s' : State} {u v : Address} {proof pub : List UInt8}
    {q i f o pk : Bytes32} {t : AtomicSwapTerms} {sig : BytesN 64} (hq : HexWord t.quoteHashHex q)
    (ho : HexWord t.outputAssetIdHex o) (hu : Text.utf8 t.recipientStrkey = u.bytes)
    (h : s.rfqSettleAtomicSwap E u v proof pub q i f o t.quotedOutput t.minOutput t.priceScaled pk sig =
      .ok s') :
    ∃ w, HexWord (atomicSwapHash E.sha256 t) w ∧ E.ed25519 pk w.bytes sig = true := by
  obtain ⟨terms, -, hterms, hsigned, -, -⟩ := rfqSettleAtomicSwap_terms h
  obtain ⟨-, rfl⟩ := contractTerms_eq_ok.1 hterms
  rw [← hu, ← t.buf_eq E.sha256 hq ho] at hsigned
  exact ⟨_, ⟨_, .inr rfl, spells_hex _⟩, hsigned⟩

/-- **Two sides, one string.** For words as 64 digits, numbers of 128 bits and a recipient of 56
characters, the contract builds the string the solver hashes; it builds none when the characters take
more than 56 bytes. Different terms have different strings, and the solver's price rule is the
contract's wherever the product does not overflow. -/
theorem swap_terms_agree (E : Env) :
    (∀ (t : AtomicSwapTerms) (q o : Bytes32), HexWord t.quoteHashHex q → HexWord t.outputAssetIdHex o →
      I128 t.quotedOutput → I128 t.minOutput → I128 t.priceScaled → t.recipientStrkey.length = 56 →
      (∀ terms, contractTerms E q o t.quotedOutput t.minOutput t.priceScaled
        (Text.utf8 t.recipientStrkey) = .ok terms → terms = t.buf E.sha256) ∧
      ((∀ c ∈ t.recipientStrkey, c.toNat < 128) → contractTerms E q o t.quotedOutput t.minOutput
        t.priceScaled (Text.utf8 t.recipientStrkey) = .ok (t.buf E.sha256))) ∧
    (∀ (q o r q' o' r' : Bytes32) (qo mo ps qo' mo' ps' : ℤ), I128 qo → I128 mo → I128 ps → I128 qo' →
      I128 mo' → I128 ps' → (q, o, qo, mo, ps, r) ≠ (q', o', qo', mo', ps', r') →
      State.swapTerms q o qo mo ps r ≠ State.swapTerms q' o' qo' mo' ps' r') ∧
    ∀ a p : ℤ, 0 ≤ a → 0 ≤ p → a * p < 2 ^ 127 → expectedOutput a p = .ok (quotedFromPrice a p) := by
  refine ⟨fun t q o hq ho _ _ _ hlen => ⟨?_, ?_⟩, ?_, ?_⟩
  · intro terms h
    rw [t.buf_eq E.sha256 hq ho]
    exact (contractTerms_eq_ok.1 h).2
  · intro hascii
    exact contractTerms_eq_ok.2 ⟨by rw [length_utf8 hascii, hlen], t.buf_eq E.sha256 hq ho⟩
  · intro q o r q' o' r' qo mo ps qo' mo' ps' hqo hmo hps hqo' hmo' hps' hne h
    obtain ⟨rfl, rfl, rfl, rfl, rfl, rfl⟩ := swapTerms_inj hqo hqo' hmo hmo' hps hps' h
    exact hne rfl
  · intro a p ha hp hmul
    have hnonneg := mul_nonneg ha hp
    rw [expectedOutput, require_of ⟨by omega, hmul⟩]
    rfl

/-- Terms at the limits of an `i128`. -/
def extremeTerms : AtomicSwapTerms where
  quoteHashHex := '0' :: 'x' :: Text.hex (word 171).bytes
  outputAssetIdHex := Text.hex (word 205).bytes
  quotedOutput := -2 ^ 127
  minOutput := 2 ^ 127 - 1
  priceScaled := -1
  recipientStrkey := List.replicate 56 'G'

/-- The extreme amounts: both sides build the same terms, and they are told apart. -/
theorem swap_terms_agree_extreme :
    contractTerms (swapEnv []) (word 171) (word 205) (-2 ^ 127) (2 ^ 127 - 1) (-1)
      (Text.utf8 (List.replicate 56 'G')) = .ok (extremeTerms.buf toyHash) ∧
    State.swapTerms (word 171) (word 205) (-2 ^ 127) (2 ^ 127 - 1) (-1) (word 0) ≠
      State.swapTerms (word 171) (word 205) (-2 ^ 127) (2 ^ 127 - 1) 1 (word 0) ∧
    expectedOutput 60 1500000000 = .ok (quotedFromPrice 60 1500000000) := by
  obtain ⟨hagree, hinj, hprice⟩ := swap_terms_agree (swapEnv [])
  refine ⟨?_, ?_, hprice 60 1500000000 (by norm_num) (by norm_num) (by norm_num)⟩
  · exact (hagree extremeTerms (word 171) (word 205) ⟨_, .inr rfl, spells_hex _⟩
      ⟨_, .inl rfl, spells_hex _⟩ (by norm_num [I128, extremeTerms]) (by norm_num [I128, extremeTerms])
      (by norm_num [I128, extremeTerms]) (by simp [extremeTerms])).2
      (by simp [extremeTerms])
  · exact hinj _ _ _ _ _ _ _ _ _ _ _ _ (by norm_num [I128]) (by norm_num [I128]) (by norm_num [I128])
      (by norm_num [I128]) (by norm_num [I128]) (by norm_num [I128]) (by simp)

end ShadePay.Rfq
