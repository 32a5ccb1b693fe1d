import ShadePay.Stellar.Codec

/-!
# The three codecs of the public signals

`circom2soroban` writes the public signals of a proof, and two contracts read them: the pool, which
checks them against its state (`Pool.parsePublicSignals`), and the verifier, which feeds them to the
pairing check (`ProofVerifiers.publicFromBytes`). Each has its own arithmetic on positions in the byte
string. `publicFromU256_eq` says that the two readers go through a byte string in step, and
`codec_agrees` that they see what the tool was given.
-/

namespace ShadePay.Stellar

open Guard

/-! ## Positions -/

/-- `u32` addition with overflow checks. -/
def addU32 (a b : ℕ) : Except Error ℕ := do
  require (a + b < 2 ^ 32) .host
  return a + b

/-- `bytes.slice(start..stop)`, which traps outside the byte string. -/
def slice (bs : List UInt8) (start stop : ℕ) : Except Error (List UInt8) := do
  require (start ≤ stop ∧ stop ≤ bs.length) .host
  return (bs.drop start).take (stop - start)

/-- `copy_into_slice` to an array of width `n`, which traps on another length. -/
def copyIntoSlice (n : ℕ) (bs : List UInt8) : Except Error (BytesN n) :=
  if h : bs.length = n then .ok ⟨bs, h⟩ else .error .host

/-! ## The pool -/

namespace Pool

/-- `read_u32_be`: the number and the position behind it. -/
def readU32Be (bs : List UInt8) (pos : ℕ) : Except Error (ℕ × ℕ) := do
  let stop ← addU32 pos 4
  let arr ← copyIntoSlice 4 (← slice bs pos stop)
  let pos ← addU32 pos 4
  return (arr.toNat, pos)

/-- The loop of `parse_public_signals`. -/
def readWords (bs : List UInt8) : ℕ → ℕ → Except Error (List Bytes32)
  | 0, _ => .ok []
  | n + 1, pos => do
      let stop ← addU32 pos 32
      let arr ← copyIntoSlice 32 (← slice bs pos stop)
      let pos ← addU32 pos 32
      let out ← readWords bs n pos
      return arr :: out

/-- `parse_public_signals`. -/
def parsePublicSignals (bs : List UInt8) : Except Error (List Bytes32) := do
  let (len, pos) ← readU32Be bs 0
  readWords bs len pos

end Pool

/-! ## The verifier -/

namespace ProofVerifiers

/-- `take::<N>`: the array and the position behind it. -/
def take (N : ℕ) (bs : List UInt8) (pos : ℕ) : Except Error (BytesN N × ℕ) := do
  let stop ← addU32 pos N
  let arr ← copyIntoSlice N (← slice bs pos stop)
  return (arr, stop)

section
variable {α : Type}

/-- The loop of `public_from_bytes`, up to what is made of each `U256`. -/
def readSignals (fromU256 : ℕ → α) (bs : List UInt8) : ℕ → ℕ → Except Error (List α)
  | 0, _ => .ok []
  | n + 1, pos => do
      let (arr, pos) ← take 32 bs pos
      let signals ← readSignals fromU256 bs n pos
      return fromU256 arr.toNat :: signals

/-- `public_from_bytes`, up to what is made of each `U256`. -/
def publicFromU256 (fromU256 : ℕ → α) (bs : List UInt8) : Except Error (List α) := do
  let (len, pos) ← take 4 bs 0
  readSignals fromU256 bs len.toNat pos

end

/-- The integers `public_from_bytes` reads. -/
def publicIntegers : List UInt8 → Except Error (List ℕ) := publicFromU256 id

/-- `public_from_bytes`: each integer reduced by `Fr::from_u256`. -/
def publicFromBytes : List UInt8 → Except Error (List Bls12381) := publicFromU256 fun u => (u : Bls12381)

end ProofVerifiers

/-! ## The tool -/

/-- What `circom2soroban` uses of the crate `num-bigint`. -/
structure NumBigint where
  /-- `BigUint::from_str_radix(_, 10)`. -/
  fromStrRadix : List Char → Option ℕ
  /-- `to_bytes_be`: the digits to base 256, without leading zeros. -/
  toBytesBe : ℕ → List UInt8
  fromStrRadix_toDigits : ∀ n, fromStrRadix (Nat.toDigits 10 n) = some n
  toNat_toBytesBe : ∀ n, Bytes.toNat (toBytesBe n) = n
  toBytesBe_zero : toBytesBe 0 = [0]
  head_toBytesBe : ∀ n b bs, n ≠ 0 → toBytesBe n = b :: bs → b ≠ 0

namespace Circom2soroban

/-- One signal of `public_to_bytes`: 32 bytes, or a failed `unwrap` or `assert!`. -/
def signalToBytes (B : NumBigint) (s : List Char) : Option (List UInt8) := do
  let v ← B.fromStrRadix s
  let be := B.toBytesBe v
  if be.length ≤ 32 then return List.replicate (32 - be.length) 0 ++ be else none

/-- `public_to_bytes`, on the strings of the JSON array. -/
def publicToBytes (B : NumBigint) (signals : List (List Char)) : Option (List UInt8) := do
  let out ← signals.mapM (signalToBytes B)
  return Bytes.ofNat 4 (signals.length % 2 ^ 32) ++ out.flatten

end Circom2soroban

/-! ## The readers go in step -/

section
variable {bs : List UInt8} {pos : ℕ}

/-- A sum below `2 ^ 32` is taken. -/
theorem addU32_of {a b : ℕ} (h : a + b < 2 ^ 32) : addU32 a b = .ok (a + b) := by
  rw [addU32, require_of h]
  rfl

theorem addU32_of_not {a b : ℕ} (h : ¬ a + b < 2 ^ 32) : addU32 a b = .error .host :=
  require_bind_of_not h

/-- A field at a position: there must be room for it, and the next position must be a `u32`. -/
theorem take_eq_ok {N p : ℕ} {arr : BytesN N} : ProofVerifiers.take N bs pos = .ok (arr, p) ↔
    (pos + N < 2 ^ 32 ∧ pos + N ≤ bs.length) ∧ arr.bytes = (bs.drop pos).take N ∧ p = pos + N := by
  have hcopy : ∀ {l : List UInt8}, copyIntoSlice N l = .ok arr ↔ arr.bytes = l := by
    intro l
    obtain ⟨b, hb⟩ := arr
    unfold copyIntoSlice
    constructor
    · intro h
      split at h
      · exact congrArg BytesN.bytes (Except.ok.inj h).symm
      · cases h
    · rintro rfl
      rw [dif_pos hb]
  simp only [ProofVerifiers.take, addU32, slice, bind_eq_ok, require_eq_ok, exists_unit, pure_eq_ok,
    Prod.mk.injEq]
  constructor
  · rintro ⟨_, ⟨hlt, rfl⟩, l, ⟨⟨-, hle⟩, rfl⟩, a, ha, rfl, rfl⟩
    rw [hcopy, Nat.add_sub_cancel_left] at ha
    exact ⟨⟨hlt, hle⟩, ha, rfl⟩
  · rintro ⟨⟨hlt, hle⟩, ha, rfl⟩
    refine ⟨_, ⟨hlt, rfl⟩, _, ⟨⟨by omega, hle⟩, rfl⟩, arr, ?_, rfl, rfl⟩
    rw [hcopy, Nat.add_sub_cancel_left, ha]

/-- The pool's length field is the verifier's. -/
theorem Pool.readU32Be_eq : Pool.readU32Be bs pos =
    do let (arr, pos) ← ProofVerifiers.take 4 bs pos; return (arr.toNat, pos) := by
  by_cases h : pos + 4 < 2 ^ 32
  · simp only [Pool.readU32Be, ProofVerifiers.take, addU32_of h, ok_bind, bind_assoc, pure_bind]
  · simp only [Pool.readU32Be, ProofVerifiers.take, addU32_of_not h]
    rfl

/-- The pool reads a word as the verifier does. -/
theorem Pool.readWords_succ {n : ℕ} : Pool.readWords bs (n + 1) pos =
    do let (arr, pos) ← ProofVerifiers.take 32 bs pos
       let out ← Pool.readWords bs n pos
       return arr :: out := by
  by_cases h : pos + 32 < 2 ^ 32
  · simp only [Pool.readWords, ProofVerifiers.take, addU32_of h, ok_bind, bind_assoc, pure_bind]
  · simp only [Pool.readWords, ProofVerifiers.take, addU32_of_not h]
    rfl

variable {α : Type} {fromU256 : ℕ → α}

/-- The verifier reads the words that the pool reads. -/
theorem readSignals_eq (n : ℕ) : ProofVerifiers.readSignals fromU256 bs n pos =
    (List.map fun w => fromU256 w.toNat) <$> Pool.readWords bs n pos := by
  induction n generalizing pos with
  | zero => rfl
  | succ n ih =>
      rw [Pool.readWords_succ, ProofVerifiers.readSignals]
      cases ProofVerifiers.take 32 bs pos with
      | error e => rfl
      | ok r =>
          simp only [ok_bind, ih]
          cases Pool.readWords bs n r.2 <;> rfl

/-- **One reading.** The verifier fails on the byte strings the pool fails on, and reads the others
word by word as the pool does. -/
theorem publicFromU256_eq : ProofVerifiers.publicFromU256 fromU256 bs =
    (List.map fun w => fromU256 w.toNat) <$> Pool.parsePublicSignals bs := by
  rw [ProofVerifiers.publicFromU256, Pool.parsePublicSignals, Pool.readU32Be_eq]
  cases ProofVerifiers.take 4 bs 0 with
  | error e => rfl
  | ok r => exact readSignals_eq _

end

/-! ## What the tool wrote -/

/-- A field at an offset is taken back. -/
theorem take_append {N : ℕ} {l rest : List UInt8} {arr : BytesN N} (hlt : l.length + N < 2 ^ 32) :
    ProofVerifiers.take N (l ++ (arr.bytes ++ rest)) l.length = .ok (arr, l.length + N) := by
  refine take_eq_ok.2 ⟨⟨hlt, ?_⟩, ?_, rfl⟩
  · simp only [List.length_append, arr.length_eq]
    omega
  · rw [List.drop_left, List.take_left' arr.length_eq]

/-- Words at an offset are read back. -/
theorem readWords_append (ws : List Bytes32) (rest : List UInt8) {l : List UInt8}
    (hlt : l.length + 32 * ws.length < 2 ^ 32) :
    Pool.readWords (l ++ (ws.flatMap BytesN.bytes ++ rest)) ws.length l.length = .ok ws := by
  induction ws generalizing l with
  | nil => rfl
  | cons w ws ih =>
      rw [List.length_cons] at hlt
      have hlen : (l ++ w.bytes).length = l.length + 32 := by rw [List.length_append, w.length_eq]
      have htail := @ih (l ++ w.bytes) (by omega)
      rw [List.length_cons, Pool.readWords_succ, List.flatMap_cons, List.append_assoc,
        take_append (by omega), ok_bind, ← hlen, ← List.append_assoc l]
      simp only [htail]
      rfl

/-- A length and as many words, whatever bytes follow. -/
theorem Pool.parsePublicSignals_append {ws : List Bytes32} (hlen : ws.length < 2 ^ 27)
    (rest : List UInt8) : Pool.parsePublicSignals (encodeSignals ws ++ rest) = .ok ws := by
  have hfield : (BytesN.ofNat 4 ws.length).toNat = ws.length :=
    BytesN.toNat_ofNat (lt_trans hlen (by norm_num))
  have htake : ProofVerifiers.take 4 (encodeSignals ws ++ rest) 0 = .ok (.ofNat 4 ws.length, 4) := by
    rw [encodeSignals, List.append_assoc]
    exact @take_append 4 [] _ (.ofNat 4 ws.length) (by norm_num)
  have hwords : Pool.readWords (encodeSignals ws ++ rest) ws.length 4 = .ok ws := by
    have h4 : (Bytes.ofNat 4 ws.length).length = 4 := Bytes.length_ofNat _ _
    have h := @readWords_append ws rest (Bytes.ofNat 4 ws.length) (by omega)
    rwa [h4, ← List.append_assoc] at h
  rw [Pool.parsePublicSignals, Pool.readU32Be_eq, htake]
  simp only [ok_bind, pure_bind, hfield, hwords]

/-- A field beyond the end. -/
theorem take_of_not {N : ℕ} {bs : List UInt8} {pos : ℕ} (h : ¬ pos + N ≤ bs.length) :
    ProofVerifiers.take N bs pos = .error .host := by
  by_cases hlt : pos + N < 2 ^ 32
  · have hslice : slice bs pos (pos + N) = .error .host := require_bind_of_not fun hc => h hc.2
    simp only [ProofVerifiers.take, addU32_of hlt, ok_bind, hslice]
    rfl
  · simp only [ProofVerifiers.take, addU32_of_not hlt]
    rfl

/-- On byte strings the host can hold no position overflows: the pool reads the words one after the
other. -/
theorem Pool.readWords_eq {bs : List UInt8} (hbs : bs.length < 2 ^ 32) (n pos : ℕ) :
    Pool.readWords bs n pos = takeWords n (bs.drop pos) := by
  induction n generalizing pos with
  | zero => rfl
  | succ n ih =>
      rw [Pool.readWords_succ, takeWords]
      have hlen : ((bs.drop pos).take 32).length = 32 ↔ pos + 32 ≤ bs.length := by
        rw [List.length_take, List.length_drop]
        omega
      by_cases h : pos + 32 ≤ bs.length
      · have htake : ProofVerifiers.take 32 bs pos = .ok (⟨_, hlen.2 h⟩, pos + 32) :=
          take_eq_ok.2 ⟨⟨by omega, h⟩, rfl, rfl⟩
        rw [htake, dif_pos (hlen.2 h), List.drop_drop]
        simp only [ok_bind, ih]
      · rw [take_of_not h, dif_neg (mt hlen.1 h)]
        rfl

/-- On inputs of a host object's length the pool's parser is the one of the model. -/
theorem Pool.parsePublicSignals_eq {bs : List UInt8} (hbs : bs.length < 2 ^ 32) :
    Pool.parsePublicSignals bs = Stellar.parsePublicSignals bs := by
  rw [Pool.parsePublicSignals, Pool.readU32Be_eq, Stellar.parsePublicSignals]
  by_cases h : 4 ≤ bs.length
  · have hlen : (bs.take 4).length = 4 := by
      rw [List.length_take]
      omega
    have htake : ProofVerifiers.take 4 bs 0 = .ok (⟨bs.take 4, hlen⟩, 4) :=
      take_eq_ok.2 ⟨⟨by norm_num, by omega⟩, rfl, rfl⟩
    rw [htake, require_of h]
    simp only [ok_bind, pure_bind, Pool.readWords_eq hbs]
    rfl
  · rw [take_of_not (by omega), require_bind_of_not h]
    rfl

/-- On inputs of a host object's length the verifier's parser is the one of the model. -/
theorem ProofVerifiers.publicFromBytes_eq {bs : List UInt8} (hbs : bs.length < 2 ^ 32) :
    ProofVerifiers.publicFromBytes bs = Stellar.publicFromBytes bs := by
  rw [ProofVerifiers.publicFromBytes, publicFromU256_eq, Pool.parsePublicSignals_eq hbs,
    Stellar.publicFromBytes]
  cases Stellar.parsePublicSignals bs <;> rfl

/-! ## The tool -/

/-- The digits without leading zeros of a number of 32 bytes are at most 32. -/
theorem NumBigint.length_le (B : NumBigint) {n : ℕ} (hn : n < 2 ^ 256) :
    (B.toBytesBe n).length ≤ 32 := by
  rcases Nat.eq_zero_or_pos n with rfl | hpos
  · rw [B.toBytesBe_zero]
    decide
  · cases hb : B.toBytesBe n with
    | nil => simp
    | cons b bs =>
        have hval := B.toNat_toBytesBe n
        have hne := B.head_toBytesBe n b bs hpos.ne' hb
        have hb0 : 0 < b.toNat := by
          rw [Nat.pos_iff_ne_zero]
          exact fun h => hne (UInt8.toNat_inj.1 h)
        rw [hb, Bytes.toNat] at hval
        by_contra hlen
        rw [List.length_cons, not_le] at hlen
        have hpow : 256 ^ 32 ≤ 256 ^ bs.length := Nat.pow_le_pow_right (by norm_num) (by omega)
        have hle : 256 ^ bs.length ≤ b.toNat * 256 ^ bs.length := Nat.le_mul_of_pos_left _ hb0
        have h256 : (2 : ℕ) ^ 256 = 256 ^ 32 := by norm_num
        omega

/-- Leading zeros do not change the number. -/
theorem toNat_replicate (k : ℕ) (bs : List UInt8) :
    Bytes.toNat (List.replicate k 0 ++ bs) = Bytes.toNat bs := by
  induction k with
  | zero => rfl
  | succ k ih => simpa [List.replicate_succ, Bytes.toNat] using ih

/-- A signal is written as the word of its number. -/
theorem signalToBytes_toDigits (B : NumBigint) {n : ℕ} (hn : n < 2 ^ 256) :
    Circom2soroban.signalToBytes B (Nat.toDigits 10 n) = some (BytesN.ofNat 32 n).bytes := by
  have hlen := B.length_le hn
  have hword : List.replicate (32 - (B.toBytesBe n).length) 0 ++ B.toBytesBe n =
      (BytesN.ofNat 32 n).bytes := by
    apply Bytes.toNat_injective
    · rw [BytesN.length_eq, List.length_append, List.length_replicate]
      omega
    · rw [toNat_replicate, B.toNat_toBytesBe]
      exact (BytesN.toNat_ofNat (lt_of_lt_of_eq hn (by norm_num))).symm
  simp only [Circom2soroban.signalToBytes, B.fromStrRadix_toDigits, Option.bind_eq_bind,
    Option.bind_some, if_pos hlen, hword]
  rfl

/-- Decimal texts of words are encoded as their words. -/
theorem publicToBytes_toDigits (B : NumBigint) {ns : List ℕ} (hlen : ns.length < 2 ^ 27)
    (hns : ∀ n ∈ ns, n < 2 ^ 256) : Circom2soroban.publicToBytes B (ns.map (Nat.toDigits 10)) =
      some (encodeSignals (ns.map (.ofNat 32))) := by
  have hwords : (ns.map (Nat.toDigits 10)).mapM (Circom2soroban.signalToBytes B) =
      some (ns.map fun n => (BytesN.ofNat 32 n).bytes) := by
    clear hlen
    induction ns with
    | nil => rfl
    | cons n ns ih =>
        rw [List.map_cons, List.mapM_cons, signalToBytes_toDigits B (hns n (by simp)),
          ih fun m hm => hns m (by simp [hm])]
        rfl
  rw [Circom2soroban.publicToBytes, hwords, encodeSignals, List.length_map, List.length_map,
    Nat.mod_eq_of_lt (by omega), List.flatMap_map]
  rfl

/-- **The codecs agree.** The pool reads back the words of the numbers the tool was given in decimal,
the verifier their values, and the verifier's scalars are these reduced. On every byte string that
both contracts can read they see the same integers. -/
theorem codec_agrees (B : NumBigint) :
    (∀ ns : List ℕ, ns.length < 2 ^ 27 → (∀ n ∈ ns, n < 2 ^ 256) →
      ∃ bs, Circom2soroban.publicToBytes B (ns.map (Nat.toDigits 10)) = some bs ∧
        ∀ rest, Pool.parsePublicSignals (bs ++ rest) = .ok (ns.map (.ofNat 32)) ∧
          ProofVerifiers.publicIntegers (bs ++ rest) = .ok ns ∧
          ProofVerifiers.publicFromBytes (bs ++ rest) = .ok (ns.map fun n : ℕ => (n : Bls12381))) ∧
    ∀ bs ws us, Pool.parsePublicSignals bs = .ok ws → ProofVerifiers.publicIntegers bs = .ok us →
      us = ws.map BytesN.toNat := by
  constructor
  · intro ns hlen hns
    refine ⟨_, publicToBytes_toDigits B hlen hns, fun rest => ?_⟩
    have hparse := @Pool.parsePublicSignals_append (ns.map (.ofNat 32))
      (by rwa [List.length_map]) rest
    have hvalue : ∀ n ∈ ns, (BytesN.ofNat 32 n).toNat = n := fun n hn =>
      BytesN.toNat_ofNat (lt_of_lt_of_eq (hns n hn) (by norm_num))
    have hread : ∀ {α : Type} (f : ℕ → α),
        ProofVerifiers.publicFromU256 f (encodeSignals (ns.map (.ofNat 32)) ++ rest) =
          .ok (ns.map f) := by
      intro α f
      rw [publicFromU256_eq, hparse]
      refine congrArg Except.ok ?_
      rw [List.map_map]
      exact List.map_congr_left fun n hn => congrArg f (hvalue n hn)
    refine ⟨hparse, ?_, hread _⟩
    have hid := hread id
    rwa [List.map_id] at hid
  · intro bs ws us hws hus
    rw [ProofVerifiers.publicIntegers, publicFromU256_eq, hws] at hus
    exact (Except.ok.inj hus).symm

/-! ## The crate -/

namespace NumBigint

/-- A decimal digit. -/
def digit (c : Char) : Option ℕ := if c.isDigit then some (c.toNat - 48) else none

/-- The digits of a number, with underscores anywhere but in front. -/
def digits : List Char → ℕ → Option ℕ
  | [], v => some v
  | c :: cs, v => if c = '_' then digits cs v else do digits cs (10 * v + (← digit c))

/-- A text without a leading plus sign, when a second one does not follow. -/
def unsigned (s : List Char) : List Char :=
  if s.head? = some '+' ∧ s.tail.head? ≠ some '+' then s.tail else s

/-- `from_str_radix(_, 10)`. -/
def parse (s : List Char) : Option ℕ :=
  if unsigned s = [] ∨ (unsigned s).head? = some '_' then none else digits (unsigned s) 0

/-- The digits of a number are read one by one. -/
theorem digits_eq {s : List Char} (hs : ∀ c ∈ s, c.isDigit) (v : ℕ) :
    digits s v = some (Nat.ofDigitChars 10 s v) := by
  induction s generalizing v with
  | nil => simp [digits]
  | cons c cs ih =>
      have hc := hs c (by simp)
      have hne : c ≠ '_' := by
        rintro rfl
        exact absurd hc (by decide)
      rw [digits, if_neg hne, digit, if_pos hc, Nat.ofDigitChars_cons]
      exact ih (fun d hd => hs d (by simp [hd])) _

/-- A decimal text is read back. -/
theorem parse_toDigits (n : ℕ) : parse (Nat.toDigits 10 n) = some n := by
  have hdigit : ∀ c ∈ Nat.toDigits 10 n, c.isDigit := fun c hc =>
    Nat.isDigit_of_mem_toDigits (by norm_num) (by norm_num) hc
  cases hs : Nat.toDigits 10 n with
  | nil => exact absurd hs Nat.toDigits_ne_nil
  | cons c cs =>
      have hc : c.isDigit := hdigit c (by simp [hs])
      have hplus : c ≠ '+' := by
        rintro rfl
        exact absurd hc (by decide)
      have hscore : c ≠ '_' := by
        rintro rfl
        exact absurd hc (by decide)
      have hunsigned : unsigned (c :: cs) = c :: cs := if_neg (by simp [hplus])
      rw [parse, hunsigned, if_neg (by simp [hscore]), digits_eq (fun d hd => hdigit d (hs ▸ hd)),
        ← hs, Nat.ofDigitChars_ten_toDigits]

/-- `to_bytes_be`. -/
def bytes (n : ℕ) : List UInt8 :=
  if n = 0 then [0] else (Nat.digits 256 n).reverse.map UInt8.ofNat

/-- Little-endian digits, reversed. -/
theorem toNat_reverse {l : List ℕ} (hl : ∀ d ∈ l, d < 256) :
    Bytes.toNat (l.reverse.map UInt8.ofNat) = Nat.ofDigits 256 l := by
  induction l with
  | nil => rfl
  | cons d l ih =>
      have hd : (UInt8.ofNat d).toNat = d := UInt8.toNat_ofNat_of_lt' (hl d (by simp))
      rw [List.reverse_cons, List.map_append, Bytes.toNat_append, ih fun e he => hl e (by simp [he]),
        Nat.ofDigits_cons]
      simp only [List.map_cons, List.map_nil, Bytes.toNat, hd, List.length_cons, List.length_nil]
      push_cast
      ring

/-- The crate's two functions as documented. -/
def reference : NumBigint where
  fromStrRadix := parse
  toBytesBe := bytes
  fromStrRadix_toDigits := parse_toDigits
  toNat_toBytesBe := by
    intro n
    unfold bytes
    split
    · simp_all [Bytes.toNat]
    · rw [toNat_reverse fun d hd => Nat.digits_lt_base (by norm_num) hd, Nat.ofDigits_digits]
  toBytesBe_zero := rfl
  head_toBytesBe := by
    intro n b bs hn hb
    rw [bytes, if_neg hn] at hb
    have hlast := Nat.getLast_digit_ne_zero 256 hn
    have hlt : ∀ d ∈ Nat.digits 256 n, d < 256 := fun d hd => Nat.digits_lt_base (by norm_num) hd
    cases hrev : (Nat.digits 256 n).reverse with
    | nil => rw [hrev] at hb; cases hb
    | cons d ds =>
        rw [hrev, List.map_cons, List.cons.injEq] at hb
        have hdigits : Nat.digits 256 n = ds.reverse ++ [d] := by
          rw [← List.reverse_reverse (Nat.digits 256 n), hrev, List.reverse_cons]
        have hd : d < 256 := hlt d (by simp [hdigits])
        simp only [hdigits, List.getLast_append_singleton] at hlast
        rintro rfl
        have hzero := congrArg UInt8.toNat hb.1
        rw [UInt8.toNat_ofNat_of_lt' hd] at hzero
        exact hlast hzero

end NumBigint

/-- Zero and the largest word, with a byte left over. -/
theorem codec_agrees_extremes :
    ∃ bs, Circom2soroban.publicToBytes .reference ([0, 2 ^ 256 - 1].map (Nat.toDigits 10)) = some bs ∧
      Pool.parsePublicSignals (bs ++ [7]) = .ok [.ofNat 32 0, .ofNat 32 (2 ^ 256 - 1)] ∧
      ProofVerifiers.publicIntegers (bs ++ [7]) = .ok [0, 2 ^ 256 - 1] := by
  obtain ⟨bs, hbs, hread⟩ := (codec_agrees .reference).1 [0, 2 ^ 256 - 1] (by decide) (by decide)
  exact ⟨bs, hbs, (hread [7]).1, (hread [7]).2.1⟩

end ShadePay.Stellar
