import ShadePay.Lib.Bytes
import ShadePay.Lib.Delimited

/-!
# Texts

How a runtime encodes texts: UTF-8 for hashing, UTF-16 for comparing, hexadecimal digits of byte
strings, and quoted JSON strings. Each encoding is injective, and a quoted string shows its end
(`Text.delimited_quote`).
-/

namespace Text

/-! ## Unicode -/

/-- The UTF-8 bytes of a text. -/
def utf8 (t : List Char) : List UInt8 := t.flatMap String.utf8EncodeChar

/-- UTF-8 is injective. -/
theorem utf8_injective : Function.Injective utf8 := by
  intro s t h
  have hbytes : s.utf8Encode = t.utf8Encode := congrArg List.toByteArray h
  have hdecode := congrArg ByteArray.utf8Decode? hbytes
  rw [List.utf8Decode?_utf8Encode, List.utf8Decode?_utf8Encode, Option.some.injEq] at hdecode
  simpa using hdecode

/-- The UTF-16 code units of a character. -/
def units (c : Char) : List ℕ :=
  if c.toNat < 0x10000 then [c.toNat]
  else [0xD800 + (c.toNat - 0x10000) / 0x400, 0xDC00 + (c.toNat - 0x10000) % 0x400]

/-- The UTF-16 code units of a text. -/
def utf16 (t : List Char) : List ℕ := t.flatMap units

theorem Char.toNat_lt_or (c : Char) :
    c.toNat < 0xD800 ∨ 0xDFFF < c.toNat ∧ c.toNat < 0x110000 := c.valid

/-- The code units of a character tell where it ends. -/
theorem delimited_units : Delimited units := by
  intro a b s t h
  have ha := Char.toNat_lt_or a
  have hb := Char.toNat_lt_or b
  have hab : a.toNat = b.toNat ∧ s = t := by
    unfold units at h
    split at h <;> split at h <;>
      simp only [List.cons_append, List.nil_append, List.cons.injEq] at h
    · exact h
    · omega
    · omega
    · exact ⟨by omega, h.2.2⟩
  exact ⟨Char.toNat_inj.1 hab.1, hab.2⟩

/-- UTF-16 is injective. -/
theorem utf16_injective : Function.Injective utf16 := by
  intro s t h
  have hstart : ∀ c, ∃ u l, units c = u :: l ∧ u ≠ 0x110000 := by
    intro c
    have hc := Char.toNat_lt_or c
    unfold units
    split
    · exact ⟨_, _, rfl, by omega⟩
    · exact ⟨_, _, rfl, by omega⟩
  exact (delimited_units.flatMap hstart).injective (congrArg (· ++ [0x110000]) h)

/-! ## Hexadecimal digits -/

/-- The two lower-case digits of a byte. -/
def hexByte (b : UInt8) : List Char := [Nat.digitChar (b.toNat / 16), Nat.digitChar (b.toNat % 16)]

/-- The digits of a byte string. -/
def hex (bs : List UInt8) : List Char := bs.flatMap hexByte

/-- Hexadecimal digits are distinct. -/
theorem digitChar_inj {m n : ℕ} (hm : m < 16) (hn : n < 16) (h : Nat.digitChar m = Nat.digitChar n) :
    m = n := by
  have htable : ∀ i < 16, ∀ j < 16, Nat.digitChar i = Nat.digitChar j → i = j := by decide
  exact htable m hm n hn h

/-- A byte has two hexadecimal digits. -/
theorem delimited_hexByte : Delimited hexByte := by
  intro a b s t h
  simp only [hexByte, List.cons_append, List.nil_append, List.cons.injEq] at h
  obtain ⟨hhigh, hlow, hst⟩ := h
  have ha := a.toNat_lt
  have hb := b.toNat_lt
  have h1 := digitChar_inj (by omega) (by omega) hhigh
  have h2 := digitChar_inj (by omega) (by omega) hlow
  exact ⟨UInt8.toNat_inj.1 (by omega), hst⟩

/-- The hexadecimal text of bytes determines them. -/
theorem hex_injective : Function.Injective hex := by
  intro s t h
  have hstart : ∀ b, ∃ c l, hexByte b = c :: l ∧ c ≠ ' ' := by
    intro b
    have hdigit : ∀ n < 16, Nat.digitChar n ≠ ' ' := by decide
    have hb := b.toNat_lt
    exact ⟨_, _, rfl, hdigit _ (by omega)⟩
  exact (delimited_hexByte.flatMap hstart).injective (congrArg (· ++ [' ']) h)

/-! ## JSON strings -/

/-- The quotation mark. -/
def mark : Char := Char.ofNat 34

/-- The backslash. -/
def backslash : Char := Char.ofNat 92

/-- A character as `JSON.stringify` writes it between the quotation marks. -/
def escape (c : Char) : List Char :=
  if c = mark ∨ c = backslash then [backslash, c]
  else if 32 ≤ c.toNat then [c]
  else match c.toNat with
    | 8 => [backslash, 'b']
    | 9 => [backslash, 't']
    | 10 => [backslash, 'n']
    | 12 => [backslash, 'f']
    | 13 => [backslash, 'r']
    | n => [backslash, 'u', '0', '0', Nat.digitChar (n / 16), Nat.digitChar (n % 16)]

/-- A text as `JSON.stringify` writes it. -/
def quote (t : List Char) : List Char := mark :: (t.flatMap escape ++ [mark])

/-- The characters that are written with a backslash. -/
def escaped : List Char := mark :: backslash :: (List.range 32).map Char.ofNat

/-- A plain character is written as it is. -/
theorem escape_of_notMem {c : Char} (h : c ∉ escaped) : escape c = [c] := by
  simp only [escaped, List.mem_cons, List.mem_map, List.mem_range, not_or, not_exists,
    not_and] at h
  obtain ⟨h1, h2, h3⟩ := h
  have hc : 32 ≤ c.toNat := by
    by_contra hlt
    exact h3 c.toNat (by omega) (Char.ofNat_toNat c)
  rw [escape, if_neg (by simp [h1, h2]), if_pos hc]

/-- An escape starts with a backslash. -/
theorem escape_of_mem {c : Char} (h : c ∈ escaped) : ∃ l, escape c = backslash :: l := by
  have htable : (escaped.all fun c => (escape c).head? == some backslash) = true := by decide
  have hc := List.all_eq_true.1 htable c h
  cases hesc : escape c with
  | nil => simp [hesc] at hc
  | cons b l => exact ⟨l, by simpa [hesc] using hc⟩

/-- No escape is the start of another. -/
theorem escape_prefix {a b : Char} (ha : a ∈ escaped) (hb : b ∈ escaped)
    (h : escape a <+: escape b) : a = b := by
  have htable : (escaped.all fun a => escaped.all fun b =>
      !(escape a).isPrefixOf (escape b) || a == b) = true := by decide
  have hab := List.all_eq_true.1 (List.all_eq_true.1 htable a ha) b hb
  simpa [List.isPrefixOf_iff_prefix.2 h] using hab

theorem backslash_mem : backslash ∈ escaped := by decide

/-- No character's writing starts another's. -/
theorem delimited_escape : Delimited escape := by
  refine Delimited.of_not_start fun a b h => ?_
  by_cases ha : a ∈ escaped
  · obtain ⟨l, hl⟩ := escape_of_mem ha
    by_cases hb : b ∈ escaped
    · exact escape_prefix ha hb h
    · rw [hl, escape_of_notMem hb, List.cons_prefix_cons] at h
      exact absurd (h.1 ▸ backslash_mem) hb
  · rw [escape_of_notMem ha] at h
    by_cases hb : b ∈ escaped
    · obtain ⟨l, hl⟩ := escape_of_mem hb
      rw [hl, List.cons_prefix_cons] at h
      exact absurd (h.1 ▸ backslash_mem) ha
    · rw [escape_of_notMem hb, List.cons_prefix_cons] at h
      exact h.1

/-- No escape starts with a quotation mark. -/
theorem escape_start (c : Char) : ∃ b l, escape c = b :: l ∧ b ≠ mark := by
  by_cases hc : c ∈ escaped
  · obtain ⟨l, hl⟩ := escape_of_mem hc
    exact ⟨_, _, hl, by decide⟩
  · refine ⟨_, _, escape_of_notMem hc, ?_⟩
    rintro rfl
    exact hc (by decide)

/-- **A quoted string shows its end.** -/
theorem delimited_quote : Delimited quote := by
  intro a b s t h
  simp only [quote, List.cons_append, List.cons.injEq, true_and] at h
  exact delimited_escape.flatMap escape_start a b s t h

end Text
