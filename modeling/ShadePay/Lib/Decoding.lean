import ShadePay.Lib.Text
import Mathlib.Tactic.Linarith

/-!
# Decoding bytes and texts

UTF-8 as decoders of the Web read it, where ill-formed bytes give replacement characters, and base64,
read leniently as by `Buffer.from`. Each decoder inverts its encoder.
-/

namespace Text

/-! ## UTF-8 -/

/-- A continuation byte. -/
def isTail (b : UInt8) : Bool := 0x80 ≤ b && b ≤ 0xBF

/-- A second byte that can follow the first, if the first starts more than two bytes. -/
def isSecond (a b : UInt8) : Bool :=
  if a = 0xE0 then 0xA0 ≤ b && b ≤ 0xBF
  else if a = 0xED then 0x80 ≤ b && b ≤ 0x9F
  else if a = 0xF0 then 0x90 ≤ b && b ≤ 0xBF
  else if a = 0xF4 then 0x80 ≤ b && b ≤ 0x8F
  else 0xE1 ≤ a && a ≤ 0xF3 && isTail b

/-- How many bytes one replacement character stands for, where no character is encoded. -/
def malformed : List UInt8 → ℕ
  | a :: b :: c :: _ =>
      if isSecond a b then (if 0xF0 ≤ a ∧ isTail c then 3 else 2) else 1
  | [a, b] => if isSecond a b then 2 else 1
  | _ => 1

/-- The first `n` steps of decoding. -/
def decodeSteps : ℕ → List UInt8 → List Char
  | 0, _ => []
  | _ + 1, [] => []
  | n + 1, b :: bs =>
      match ByteArray.utf8DecodeChar? (b :: bs).toByteArray 0 with
      | some c => c :: decodeSteps n ((b :: bs).drop c.utf8Size)
      | none => Char.ofNat 0xFFFD :: decodeSteps n ((b :: bs).drop (malformed (b :: bs)))

/-- The text of UTF-8 bytes. -/
def decodeUtf8 (bs : List UInt8) : List Char := decodeSteps bs.length bs

/-- Encoded characters are decoded one by one. -/
theorem decodeSteps_utf8 {t : List Char} {n : ℕ} (h : t.length ≤ n) : decodeSteps n (utf8 t) = t := by
  induction t generalizing n with
  | nil => cases n <;> rfl
  | cons c t ih =>
      obtain ⟨n, rfl⟩ := Nat.exists_eq_add_one.2 (show 0 < n by simp at h; omega)
      have hsize := String.length_utf8EncodeChar c
      have hcons : utf8 (c :: t) = String.utf8EncodeChar c ++ utf8 t := List.flatMap_cons
      have hdecode : ByteArray.utf8DecodeChar? (utf8 (c :: t)).toByteArray 0 = some c := by
        rw [hcons, List.toByteArray_append]
        exact ByteArray.utf8DecodeChar?_utf8EncodeChar_append
      obtain ⟨b, bs, hbs⟩ : ∃ b bs, utf8 (c :: t) = b :: bs := by
        refine List.exists_cons_of_length_pos ?_
        rw [hcons, List.length_append, hsize]
        have := c.utf8Size_pos
        omega
      rw [hbs] at hdecode
      rw [hbs, decodeSteps, hdecode]
      dsimp only
      rw [← hbs, hcons, ← hsize, List.drop_left, ih (by simpa using h)]

/-- A character takes one byte at least. -/
theorem length_le_utf8 (t : List Char) : t.length ≤ (utf8 t).length := by
  induction t with
  | nil => exact le_rfl
  | cons c t ih =>
      have hcons : utf8 (c :: t) = String.utf8EncodeChar c ++ utf8 t := List.flatMap_cons
      have := c.utf8Size_pos
      rw [hcons, List.length_append, List.length_cons, String.length_utf8EncodeChar]
      omega

/-- **UTF-8 reads back.** -/
@[simp] theorem decodeUtf8_utf8 (t : List Char) : decodeUtf8 (utf8 t) = t :=
  decodeSteps_utf8 (length_le_utf8 t)

end Text

/-! ## Base64 -/

namespace Base64

/-- The digits. -/
def alphabet : List Char :=
  "ABCDEFGHIJKLMNOPQRSTUVWXYZabcdefghijklmnopqrstuvwxyz0123456789+/".toList

/-- The digit of a value below 64. -/
def digit (n : ℕ) : Char := alphabet.getD n 'A'

/-- The value of a digit. -/
def sextet (c : Char) : Option ℕ := if c ∈ alphabet then some (alphabet.idxOf c) else none

/-- The values that spell bytes. -/
def sextets : List UInt8 → List ℕ
  | a :: b :: c :: s => a.toNat / 4 :: (a.toNat % 4 * 16 + b.toNat / 16) ::
      (b.toNat % 16 * 4 + c.toNat / 64) :: c.toNat % 64 :: sextets s
  | [a, b] => [a.toNat / 4, a.toNat % 4 * 16 + b.toNat / 16, b.toNat % 16 * 4]
  | [a] => [a.toNat / 4, a.toNat % 4 * 16]
  | [] => []

/-- The bytes that values spell; what is left over is dropped. -/
def bytes : List ℕ → List UInt8
  | a :: b :: c :: d :: s => UInt8.ofNat (a * 4 + b / 16) :: UInt8.ofNat (b % 16 * 16 + c / 4) ::
      UInt8.ofNat (c % 4 * 64 + d) :: bytes s
  | [a, b, c] => [UInt8.ofNat (a * 4 + b / 16), UInt8.ofNat (b % 16 * 16 + c / 4)]
  | [a, b] => [UInt8.ofNat (a * 4 + b / 16)]
  | _ => []

/-- How many padding characters follow. -/
def padding (bs : List UInt8) : ℕ := (3 - bs.length % 3) % 3

/-- `toString("base64")` of a buffer. -/
def encode (bs : List UInt8) : List Char :=
  (sextets bs).map digit ++ List.replicate (padding bs) '='

/-- The value of a digit, of the other alphabet too. -/
def looseSextet (c : Char) : Option ℕ :=
  if c = '-' then some 62 else if c = '_' then some 63 else sextet c

/-- `Buffer.from(s, "base64")`: what is no digit is skipped, up to the padding. -/
def fromBase64 (s : List Char) : List UInt8 :=
  bytes ((s.takeWhile fun c => c ≠ '=').filterMap looseSextet)

/-! ## Base64 reads back -/

section
variable {bs : List UInt8} {n : ℕ} {l : List ℕ}

/-- Six bits are below 64. -/
theorem sextets_lt : ∀ n ∈ sextets bs, n < 64 := by
  fun_induction sextets bs with
  | case1 a b c s ih =>
      have := a.toNat_lt
      have := b.toNat_lt
      have := c.toNat_lt
      intro n hn
      simp only [List.mem_cons] at hn
      rcases hn with rfl | rfl | rfl | rfl | hn
      · omega
      · omega
      · omega
      · omega
      · exact ih n hn
  | case2 a b =>
      have := a.toNat_lt
      have := b.toNat_lt
      simp only [List.forall_mem_cons, List.not_mem_nil, false_imp_iff, implies_true, and_true]
      omega
  | case3 a =>
      have := a.toNat_lt
      simp only [List.forall_mem_cons, List.not_mem_nil, false_imp_iff, implies_true, and_true]
      omega
  | case4 => simp

/-- A byte is read off its number. -/
theorem ofNat_eq {b : UInt8} (h : n = b.toNat) : UInt8.ofNat n = b := by
  rw [h]
  exact UInt8.ofNat_toNat

/-- Bytes come back from their sextets. -/
theorem bytes_sextets (bs : List UInt8) : bytes (sextets bs) = bs := by
  fun_induction sextets bs with
  | case1 a b c s ih =>
      have := a.toNat_lt
      have := b.toNat_lt
      have := c.toNat_lt
      rw [bytes, ih, ofNat_eq (b := a) (by omega), ofNat_eq (b := b) (by omega),
        ofNat_eq (b := c) (by omega)]
  | case2 a b =>
      have := a.toNat_lt
      have := b.toNat_lt
      rw [bytes, ofNat_eq (b := a) (by omega), ofNat_eq (b := b) (by omega)]
  | case3 a =>
      have := a.toNat_lt
      rw [bytes, ofNat_eq (b := a) (by omega)]
  | case4 => rfl

/-- The character codes of the digits. -/
theorem map_toNat_alphabet : alphabet.map Char.toNat =
    List.range' 65 26 ++ List.range' 97 26 ++ List.range' 48 10 ++ [43, 47] := by
  -- the literal is read as a list first: evaluating `String.toList` is slow
  refine (congrArg _ String.toList_ofList).trans ?_
  decide

theorem length_alphabet : alphabet.length = 64 := by
  simpa using congrArg List.length map_toNat_alphabet

/-- No digit occurs twice. -/
theorem nodup_alphabet : alphabet.Nodup := by
  refine List.Nodup.of_map Char.toNat ?_
  rw [map_toNat_alphabet]
  simp only [List.nodup_append, List.mem_append, List.mem_range'_1]
  refine ⟨⟨⟨List.nodup_range', List.nodup_range', ?_⟩, List.nodup_range', ?_⟩, by decide, ?_⟩ <;>
    grind

/-- The other alphabet's two digits and the padding are no digits. -/
theorem ne_of_mem_alphabet {c : Char} (h : c ∈ alphabet) : c ≠ '-' ∧ c ≠ '_' ∧ c ≠ '=' := by
  have hcode := List.mem_map_of_mem (f := Char.toNat) h
  rw [map_toNat_alphabet] at hcode
  refine ⟨?_, ?_, ?_⟩ <;> rintro rfl <;> revert hcode <;> decide

theorem digit_eq (h : n < alphabet.length) : digit n = alphabet[n] := by
  rw [digit, List.getD_eq_getElem?_getD, List.getElem?_eq_getElem h, Option.getD_some]

theorem digit_mem (h : n < 64) : digit n ∈ alphabet := by
  have hlt : n < alphabet.length := length_alphabet ▸ h
  exact digit_eq hlt ▸ List.getElem_mem hlt

/-- A digit has its value, and is no padding. -/
theorem digit_spec (h : n < 64) : looseSextet (digit n) = some n ∧ digit n ≠ '=' := by
  have hlt : n < alphabet.length := length_alphabet ▸ h
  have hmem := digit_mem h
  obtain ⟨hdash, hline, heq⟩ := ne_of_mem_alphabet hmem
  have hidx : alphabet.idxOf (digit n) = n := by
    rw [digit_eq hlt, nodup_alphabet.idxOf_getElem]
  exact ⟨by simp [looseSextet, sextet, hdash, hline, hmem, hidx], heq⟩

/-- The digits of sextets are read back. -/
theorem filterMap_looseSextet (h : ∀ n ∈ l, n < 64) : (l.map digit).filterMap looseSextet = l := by
  induction l with
  | nil => rfl
  | cons n l ih =>
      rw [List.map_cons, List.filterMap_cons, (digit_spec (h n (by simp))).1,
        ih fun m hm => h m (by simp [hm])]

/-- **Base64 reads back.** -/
theorem fromBase64_encode (bs : List UInt8) : fromBase64 (encode bs) = bs := by
  have hlt := @sextets_lt bs
  have htake : (encode bs).takeWhile (fun c => c ≠ '=') = (sextets bs).map digit := by
    rw [encode, List.takeWhile_append_of_pos]
    · cases padding bs <;> simp [List.replicate_succ]
    · intro c hc
      obtain ⟨n, hn, rfl⟩ := List.mem_map.1 hc
      simpa using (digit_spec (hlt n hn)).2
  rw [fromBase64, htake, filterMap_looseSextet hlt, bytes_sextets]

end

end Base64
