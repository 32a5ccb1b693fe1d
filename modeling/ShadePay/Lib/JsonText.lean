import ShadePay.Lib.Json
import ShadePay.Lib.Text

/-!
# JSON texts

`JSON.stringify` and `JSON.parse` on the values of `Json`. A text is a list of characters, so that an
escape of half a surrogate pair has no value here. `Json.parse_print` says that what is printed reads
back, as long as the objects have their properties in the order of JavaScript and the texts of the
numbers read back.
-/

namespace Text

/-! ## Strings -/

/-- What a letter behind a backslash stands for. -/
def escapeLetter (c : Char) : Option Char :=
  if c = mark ∨ c = backslash ∨ c = '/' then some c
  else if c = 'b' then some (Char.ofNat 8)
  else if c = 'f' then some (Char.ofNat 12)
  else if c = 'n' then some (Char.ofNat 10)
  else if c = 'r' then some (Char.ofNat 13)
  else if c = 't' then some (Char.ofNat 9)
  else none

/-- The character of two code units that form a pair. -/
def ofPair (u w : ℕ) : Option Char :=
  if 0xD800 ≤ u ∧ u < 0xDC00 ∧ 0xDC00 ≤ w ∧ w < 0xE000 then
    some (Char.ofNat (0x10000 + (u - 0xD800) * 0x400 + (w - 0xDC00)))
  else none

/-- A character in front of what is read. -/
def before (c : Char) (r : Option (List Char × List Char)) : Option (List Char × List Char) :=
  r.map fun p => (c :: p.1, p.2)

/-- The characters up to the closing quotation mark, and what follows it. -/
def unquote : List Char → Option (List Char × List Char)
  | [] => none
  | c :: s =>
      if c = mark then some ([], s)
      else if c = backslash then
        match s with
        | 'u' :: a :: b :: c :: d :: s =>
            match ofDigits 16 [a, b, c, d] with
            | none => none
            | some u =>
                if u < 0xD800 ∨ 0xE000 ≤ u then before (Char.ofNat u) (unquote s)
                else match s with
                  | x :: 'u' :: a :: b :: c :: d :: s =>
                      match (ofDigits 16 [a, b, c, d]).bind (ofPair u) with
                      | none => none
                      | some e => if x = backslash then before e (unquote s) else none
                  | _ => none
        | e :: s =>
            match escapeLetter e with
            | none => none
            | some e => before e (unquote s)
        | [] => none
      else if c.toNat < 32 then none
      else before c (unquote s)

/-- A backslash with a letter is the character it names. -/
theorem unquote_letter {e c : Char} (he : e ≠ 'u') (h : escapeLetter e = some c) (s : List Char) :
    unquote (backslash :: e :: s) = before c (unquote s) := by
  rw [unquote, if_neg (by decide), if_pos rfl]
  · rw [h]
  · exact fun _ _ _ _ _ hu => absurd hu he

/-- A backslash with four digits is the code unit they spell. -/
theorem unquote_unit {a b c d : Char} {u : ℕ} (h : ofDigits 16 [a, b, c, d] = some u)
    (hu : u < 0xD800) (s : List Char) :
    unquote (backslash :: 'u' :: a :: b :: c :: d :: s) = before (Char.ofNat u) (unquote s) := by
  rw [unquote, if_neg (by decide), if_pos rfl]
  simp only [h]
  rw [if_pos (.inl hu)]

/-- **One character.** Its escape is read back as the character. -/
theorem unquote_escape (c : Char) (s : List Char) :
    unquote (escape c ++ s) = before c (unquote s) := by
  by_cases hmark : c = mark ∨ c = backslash
  · have hletter : c ≠ 'u' ∧ escapeLetter c = some c := by
      rcases hmark with rfl | rfl <;> decide
    rw [escape, if_pos hmark]
    exact unquote_letter hletter.1 hletter.2 s
  · by_cases hlow : 32 ≤ c.toNat
    · rw [escape, if_neg hmark, if_pos hlow, List.singleton_append, unquote.eq_def]
      dsimp only
      rw [if_neg fun h => hmark (.inl h), if_neg fun h => hmark (.inr h), if_neg (by omega)]
    · obtain ⟨i, hi, rfl⟩ : ∃ i < 32, c = Char.ofNat i :=
        ⟨c.toNat, by omega, (Char.ofNat_toNat c).symm⟩
      -- the controls: five of them have a letter, the others two digits
      have htable : ∀ i < 32, (∃ e c, escape (Char.ofNat i) = [backslash, e] ∧ e ≠ 'u' ∧
          escapeLetter e = some c ∧ c = Char.ofNat i) ∨
          ofDigits 16 ['0', '0', Nat.digitChar (i / 16), Nat.digitChar (i % 16)] = some i ∧
            escape (Char.ofNat i) =
              [backslash, 'u', '0', '0', Nat.digitChar (i / 16), Nat.digitChar (i % 16)] := by
        intro i hi
        interval_cases i <;>
          first
            | exact .inr (by decide)
            | exact .inl ⟨_, _, rfl, by decide, rfl, rfl⟩
      rcases htable i hi with ⟨e, c, hesc, hne, hletter, hc⟩ | ⟨hdigits, hesc⟩
      · rw [hesc, ← hc]
        exact unquote_letter hne hletter s
      · rw [hesc]
        exact unquote_unit hdigits (by omega) s

/-- **A quoted string reads back**, up to its closing mark. -/
theorem unquote_quote (t s : List Char) : unquote (t.flatMap escape ++ mark :: s) = some (t, s) := by
  induction t with
  | nil =>
      rw [List.flatMap_nil, List.nil_append, unquote.eq_def]
      exact if_pos rfl
  | cons c t ih => rw [List.flatMap_cons, List.append_assoc, unquote_escape, ih, before, Option.map_some]

end Text

/-! ## Numbers -/

namespace Text

/-- The bracket that opens an object. -/
def openBrace : Char := Char.ofNat 123

/-- The bracket that closes an object. -/
def closeBrace : Char := Char.ofNat 125

/-- A character that can stand in a number. -/
def isNumeral (c : Char) : Bool :=
  c.isDigit || c = '-' || c = '+' || c = '.' || c = 'e' || c = 'E'

/-- The exponent of a number, which may be missing. -/
def isExponent : List Char → Bool
  | [] => true
  | c :: s =>
      let digits := if s.head? = some '-' ∨ s.head? = some '+' then s.tail else s
      (c = 'e' || c = 'E') && !digits.isEmpty && digits.all Char.isDigit

/-- What follows the integer part of a number. -/
def isFraction (s : List Char) : Bool :=
  if s.head? = some '.' then
    !(s.tail.takeWhile Char.isDigit).isEmpty && isExponent (s.tail.dropWhile Char.isDigit)
  else isExponent s

/-- The numbers of the grammar. -/
def isNumber (s : List Char) : Bool :=
  let s := if s.head? = some '-' then s.tail else s
  let whole := s.takeWhile Char.isDigit
  !whole.isEmpty && (whole = ['0'] || whole.head? ≠ some '0') && isFraction (s.dropWhile Char.isDigit)

/-- The prefix of characters that pass the test ends where the next text starts. -/
theorem takeWhile_append {α : Type*} {p : α → Bool} {t s : List α} (ht : ∀ c ∈ t, p c)
    (hs : ∀ c ∈ s.head?, p c = false) :
    (t ++ s).takeWhile p = t ∧ (t ++ s).dropWhile p = s := by
  have hstop : s.takeWhile p = [] ∧ s.dropWhile p = s := by
    cases s with
    | nil => exact ⟨rfl, rfl⟩
    | cons c s =>
        have hc : ¬ p c := by simpa using hs c rfl
        exact ⟨List.takeWhile_cons_of_neg hc, List.dropWhile_cons_of_neg hc⟩
  rw [List.takeWhile_append_of_pos ht, List.dropWhile_append_of_pos ht, hstop.1, hstop.2]
  exact ⟨List.append_nil t, rfl⟩

/-- The parts of a text that starts with digits. -/
theorem isNumeral_of_digits {s : List Char}
    (hrest : ∀ c ∈ s.dropWhile Char.isDigit, isNumeral c) : ∀ c ∈ s, isNumeral c := by
  intro c hc
  rw [← List.takeWhile_append_dropWhile (p := Char.isDigit) (l := s)] at hc
  rcases List.mem_append.1 hc with hc | hc
  · have hd := List.all_eq_true.1 List.all_takeWhile c hc
    simp [isNumeral, hd]
  · exact hrest c hc

/-- A text that starts with a character of a number and goes on with such is one of them. -/
theorem isNumeral_of_head {s : List Char} {d : Char} (hd : isNumeral d) (hs : s.head? = some d)
    (htail : ∀ c ∈ s.tail, isNumeral c) : ∀ c ∈ s, isNumeral c := by
  obtain ⟨t, rfl⟩ := List.head?_eq_some_iff.1 hs
  intro c hc
  rcases List.mem_cons.1 hc with rfl | hc
  · exact hd
  · exact htail c hc

/-- An exponent has characters of a number only. -/
theorem isNumeral_of_isExponent {s : List Char} (h : isExponent s) : ∀ c ∈ s, isNumeral c := by
  cases s with
  | nil => simp
  | cons e s =>
      simp only [isExponent, Bool.and_eq_true, Bool.or_eq_true, decide_eq_true_eq] at h
      obtain ⟨⟨he, -⟩, hdigits⟩ := h
      refine isNumeral_of_head (d := e) (by rcases he with rfl | rfl <;> rfl) rfl ?_
      have hall : ∀ t : List Char, t.all Char.isDigit = true → ∀ c ∈ t, isNumeral c := by
        intro t ht c hc
        simp [isNumeral, List.all_eq_true.1 ht c hc]
      split at hdigits
      · next hsign =>
        rcases hsign with hsign | hsign
        · exact isNumeral_of_head rfl hsign (hall _ hdigits)
        · exact isNumeral_of_head rfl hsign (hall _ hdigits)
      · exact hall _ hdigits

/-- A fraction has characters of a number only. -/
theorem isNumeral_of_isFraction {s : List Char} (h : isFraction s) : ∀ c ∈ s, isNumeral c := by
  unfold isFraction at h
  split at h
  · next hpoint =>
    have hexp := (Bool.and_eq_true_iff.1 h).2
    exact isNumeral_of_head rfl hpoint (isNumeral_of_digits (isNumeral_of_isExponent hexp))
  · exact isNumeral_of_isExponent h

/-- A number has only characters of numbers, at least one. -/
theorem isNumeral_of_isNumber {s : List Char} (h : isNumber s) :
    s ≠ [] ∧ ∀ c ∈ s, isNumeral c := by
  have hbody : ∀ t : List Char, isFraction (t.dropWhile Char.isDigit) → ∀ c ∈ t, isNumeral c :=
    fun t ht => isNumeral_of_digits (isNumeral_of_isFraction ht)
  simp only [isNumber, Bool.and_eq_true] at h
  obtain ⟨⟨hwhole, -⟩, hrest⟩ := h
  constructor
  · rintro rfl
    cases hwhole
  · split at hrest
    · next hsign => exact isNumeral_of_head rfl hsign (hbody _ hrest)
    · exact hbody s hrest

/-! ### Whole numbers -/

/-- `toString` of a `bigint`. -/
def ofInt (z : ℤ) : List Char :=
  if z < 0 then '-' :: Nat.toDigits 10 z.natAbs else Nat.toDigits 10 z.natAbs

/-- A decimal digit has its value. -/
theorem digitValue_digitChar {d : ℕ} (hd : d < 10) : digitValue (Nat.digitChar d) = d := by
  have htable : ∀ d < 10, digitValue (Nat.digitChar d) = d := by decide
  exact htable d hd

theorem isDigit_toDigits {n : ℕ} : ∀ c ∈ Nat.toDigits 10 n, c.isDigit := fun _ hc =>
  Nat.isDigit_of_mem_toDigits (by norm_num) (by norm_num) hc

/-- A decimal digit has a value below ten. -/
theorem digitValue_of_isDigit {c : Char} (h : c.isDigit) : digitValue c < 10 := by
  have hle : c.toNat ≤ 57 := of_decide_eq_true (Bool.and_eq_true_iff.1 h).2
  rw [digitValue, if_pos h]
  omega

theorem digitValue_toDigits {n : ℕ} : ∀ c ∈ Nat.toDigits 10 n, digitValue c < 10 := fun c hc =>
  digitValue_of_isDigit (isDigit_toDigits c hc)

/-- The digits of a number spell it. -/
theorem ofDigits_toDigits (n : ℕ) : ofDigits 10 (Nat.toDigits 10 n) = some n := by
  have hfold : (Nat.toDigits 10 n).foldl (fun n c => 10 * n + digitValue c) 0 = n := by
    induction n using Nat.strong_induction_on with
    | _ n ih =>
        by_cases hn : n < 10
        · rw [Nat.toDigits_of_lt_base hn, List.foldl_cons, List.foldl_nil, digitValue_digitChar hn]
          omega
        · rw [Nat.toDigits_of_base_le (by norm_num) (by omega), List.foldl_append,
            ih (n / 10) (by omega), List.foldl_cons, List.foldl_nil,
            digitValue_digitChar (Nat.mod_lt _ (by norm_num))]
          omega
  rw [ofDigits, if_pos ⟨Nat.toDigits_ne_nil, List.all_eq_true.2 fun c hc =>
    decide_eq_true (digitValue_toDigits c hc)⟩, hfold]

/-- **Integers in texts read back.** -/
theorem toBigInt_ofInt (z : ℤ) : toBigInt (ofInt z) = some z := by
  unfold ofInt
  split
  · next hz =>
    have htrim : trim ('-' :: Nat.toDigits 10 z.natAbs) = '-' :: Nat.toDigits 10 z.natAbs := by
      refine trim_of_not_isSpace fun c hc => ?_
      rcases List.mem_cons.1 hc with rfl | hc
      · decide
      · exact isSpace_of_digitValue (digitValue_toDigits c hc)
    have hprefix : ofPrefixed ('-' :: Nat.toDigits 10 z.natAbs) = none := by
      unfold ofPrefixed
      split
      · next heq => exact absurd (List.cons.inj heq).1 (by decide)
      · rfl
    rw [toBigInt, htrim, if_neg (by simp), hprefix]
    simp only [ofSigned, ofDigits_toDigits]
    refine congrArg some ?_
    dsimp only
    omega
  · next hz =>
    rw [toBigInt_of_ofDigits (ofDigits_toDigits _)]
    exact congrArg some (by omega)

/-- The digits of a number are read to their end. -/
theorem spanDigits_toDigits (n : ℕ) :
    (Nat.toDigits 10 n).takeWhile Char.isDigit = Nat.toDigits 10 n ∧
      (Nat.toDigits 10 n).dropWhile Char.isDigit = [] := by
  simpa using takeWhile_append (s := []) isDigit_toDigits (by simp)

/-- The digits of a number, read as a number. -/
theorem toNumber_toDigits (n : ℕ) : toNumber (Nat.toDigits 10 n) = Number.ofRat n := by
  have htrim : trim (Nat.toDigits 10 n) = Nat.toDigits 10 n :=
    trim_of_not_isSpace fun c hc => isSpace_of_digitValue (digitValue_toDigits c hc)
  obtain ⟨htake, hdrop⟩ := spanDigits_toDigits n
  have hdecimal : unsignedDecimal (Nat.toDigits 10 n) = some (n : ℚ) := by
    rw [unsignedDecimal]
    simp [htake, hdrop, ofDigits_toDigits, exponent]
  have hname : Nat.toDigits 10 n ≠ "Infinity".toList := by
    intro h
    have hmem : 'I' ∈ Nat.toDigits 10 n := by
      rw [h]
      decide
    exact absurd (isDigit_toDigits 'I' hmem) (by decide)
  rw [toNumber, htrim, if_neg Nat.toDigits_ne_nil, ofPrefixed_of_digitValue digitValue_toDigits]
  dsimp only
  split
  · next heq =>
    have hmem : '+' ∈ Nat.toDigits 10 n := heq ▸ List.mem_cons_self ..
    exact absurd rfl (ne_of_digitValue (digitValue_toDigits _ hmem)).2.2.2.2.2.2.1
  · next heq =>
    have hmem : '-' ∈ Nat.toDigits 10 n := heq ▸ List.mem_cons_self ..
    exact absurd rfl (ne_of_digitValue (digitValue_toDigits _ hmem)).2.2.2.2.2.2.2
  · rw [decimal, if_neg hname, hdecimal]
    simp

end Text

/-! ## Objects -/

namespace Json

/-- The array index that a name denotes. -/
def index? (name : List Char) : Option ℕ :=
  (Text.ofDigits 10 name).filter fun n => Nat.toDigits 10 n = name && decide (n < 2 ^ 32 - 1)

/-- Define a property: at its place if there is one of its name, else at the end. -/
def setField (fields : List (List Char × Json)) (f : List Char × Json) : List (List Char × Json) :=
  if fields.any (·.1 = f.1) then fields.map fun g => if g.1 = f.1 then f else g else fields ++ [f]

/-- The properties of an object, defined one after another: the indices come first, in their order. -/
def ofFields (members : List (List Char × Json)) : List (List Char × Json) :=
  let fields := members.foldl setField []
  (fields.filter fun f => (index? f.1).isSome).insertionSort
    (fun f g => (index? f.1).getD 0 ≤ (index? g.1).getD 0) ++
      fields.filter fun f => (index? f.1).isNone

/-- Fields of distinct names are kept in their order. -/
theorem foldl_setField {l acc : List (List Char × Json)} (h : ((acc ++ l).map (·.1)).Nodup) :
    l.foldl setField acc = acc ++ l := by
  induction l generalizing acc with
  | nil => simp
  | cons f l ih =>
      have hnew : acc.any (·.1 = f.1) = false := by
        rw [List.any_eq_false]
        intro g hg
        simp only [List.map_append, List.map_cons, List.nodup_append, List.mem_cons] at h
        simpa using h.2.2 g.1 (List.mem_map_of_mem hg) f.1 (.inl rfl)
      rw [List.foldl_cons, setField, if_neg (by simp [hnew]), ih (by simpa using h)]
      simp

/-- Distinct names that are no indices. -/
def plainNames (names : List (List Char)) : Bool :=
  decide names.Nodup && names.all fun k => (index? k).isNone

/-- Properties of plain names stay in their order. -/
theorem ofFields_eq_self {l : List (List Char × Json)} (h : plainNames (l.map (·.1))) :
    ofFields l = l := by
  simp only [plainNames, Bool.and_eq_true, decide_eq_true_eq, List.all_eq_true] at h
  obtain ⟨hnodup, hnames⟩ := h
  have hplain : ∀ f ∈ l, (index? f.1).isNone := fun f hf => hnames _ (List.mem_map_of_mem hf)
  have hindices : (l.filter fun f => (index? f.1).isSome) = [] :=
    List.filter_eq_nil_iff.2 fun f hf => by simpa using hplain f hf
  have hothers : (l.filter fun f => (index? f.1).isNone) = l := List.filter_eq_self.2 hplain
  have hfold : l.foldl setField [] = l := @foldl_setField l [] hnodup
  rw [ofFields, hfold, hindices, hothers]
  rfl

/-! ## Printing -/

section
variable (numberText : Number → List Char)

mutual

/-- `JSON.stringify(v)`. -/
def print : Json → List Char
  | .null => "null".toList
  | .bool b => if b then "true".toList else "false".toList
  | .number (.finite x) => numberText (.finite x)
  | .number _ => "null".toList
  | .string s => Text.quote s
  | .array [] => ['[', ']']
  | .array (v :: l) => '[' :: (print v ++ (printItems l ++ [']']))
  | .object [] => [Text.openBrace, Text.closeBrace]
  | .object ((k, v) :: l) =>
      Text.openBrace :: (Text.quote k ++ ':' :: (print v ++ (printMembers l ++ [Text.closeBrace])))

/-- Further items, each behind a comma. -/
def printItems : List Json → List Char
  | [] => []
  | v :: l => ',' :: (print v ++ printItems l)

/-- Further members. -/
def printMembers : List (List Char × Json) → List Char
  | [] => []
  | (k, v) :: l => ',' :: (Text.quote k ++ ':' :: (print v ++ printMembers l))

end

end

/-! ## Parsing -/

/-- White space between tokens. -/
def isBlank (c : Char) : Bool := c = ' ' || c = Char.ofNat 9 || c = Char.ofNat 10 || c = Char.ofNat 13

/-- Skip white space. -/
def skip (s : List Char) : List Char := s.dropWhile isBlank

/-- A literal name or a number. -/
def scalar (s : List Char) : Option (Json × List Char) :=
  if "null".toList <+: s then some (.null, s.drop 4)
  else if "true".toList <+: s then some (.bool true, s.drop 4)
  else if "false".toList <+: s then some (.bool false, s.drop 5)
  else if Text.isNumber (s.takeWhile Text.isNumeral) then
    some (.number (Text.toNumber (s.takeWhile Text.isNumeral)), s.dropWhile Text.isNumeral)
  else none

mutual

/-- A value at the start of a text, and what follows it. -/
def value : ℕ → List Char → Option (Json × List Char)
  | 0, _ => none
  | n + 1, s =>
      match skip s with
      | [] => none
      | c :: t =>
          if c = Text.mark then (Text.unquote t).map fun p => (.string p.1, p.2)
          else if c = '[' then
            if (skip t).head? = some ']' then some (.array [], (skip t).tail)
            else (value n t).bind fun p => (items n p.2).map fun q => (.array (p.1 :: q.1), q.2)
          else if c = Text.openBrace then
            if (skip t).head? = some Text.closeBrace then some (.object [], (skip t).tail)
            else (member n t).bind fun p => (members n p.2).map fun q =>
              (.object (ofFields (p.1 :: q.1)), q.2)
          else scalar (c :: t)

/-- Further items of an array, up to the closing bracket. -/
def items : ℕ → List Char → Option (List Json × List Char)
  | 0, _ => none
  | n + 1, s =>
      match skip s with
      | [] => none
      | c :: t =>
          if c = ']' then some ([], t)
          else if c = ',' then
            (value n t).bind fun p => (items n p.2).map fun q => (p.1 :: q.1, q.2)
          else none

/-- A member of an object. -/
def member : ℕ → List Char → Option ((List Char × Json) × List Char)
  | 0, _ => none
  | n + 1, s =>
      match skip s with
      | [] => none
      | c :: t =>
          if c = Text.mark then
            (Text.unquote t).bind fun k =>
              if (skip k.2).head? = some ':' then
                (value n (skip k.2).tail).map fun p => ((k.1, p.1), p.2)
              else none
          else none

/-- Further members of an object, up to the closing brace. -/
def members : ℕ → List Char → Option (List (List Char × Json) × List Char)
  | 0, _ => none
  | n + 1, s =>
      match skip s with
      | [] => none
      | c :: t =>
          if c = Text.closeBrace then some ([], t)
          else if c = ',' then
            (member n t).bind fun p => (members n p.2).map fun q => (p.1 :: q.1, q.2)
          else none

end

/-- `JSON.parse(s)`. The nesting is no deeper than the text is long. -/
def parse (s : List Char) : Option Json :=
  (value (s.length + 1) s).bind fun p => if skip p.2 = [] then some p.1 else none

/-! ## What is printed reads back -/

section
variable {numberText : Number → List Char} {s : List Char} {n : ℕ}

/-- The text of a number is one of the grammar, for this number. -/
structure Reads (numberText : Number → List Char) (x : Number) : Prop where
  finite : ∃ y, x = .finite y
  grammar : Text.isNumber (numberText x)
  value : Text.toNumber (numberText x) = x

mutual

/-- The properties are in order everywhere, and the numbers read back. -/
def Printable (numberText : Number → List Char) : Json → Prop
  | .number x => Reads numberText x
  | .array l => PrintableItems numberText l
  | .object l => ofFields l = l ∧ PrintableMembers numberText l
  | _ => True

def PrintableItems (numberText : Number → List Char) : List Json → Prop
  | [] => True
  | v :: l => Printable numberText v ∧ PrintableItems numberText l

def PrintableMembers (numberText : Number → List Char) : List (List Char × Json) → Prop
  | [] => True
  | (_, v) :: l => Printable numberText v ∧ PrintableMembers numberText l

end

/-- No number goes on into the text. -/
def Stops (s : List Char) : Prop := ∀ c ∈ s.head?, Text.isNumeral c = false

/-- A number stops at a character that is none of its own. -/
theorem stops_cons {c : Char} (h : Text.isNumeral c = false) : Stops (c :: s) := by
  intro d hd
  obtain rfl : c = d := by simpa using hd
  exact h

theorem skip_cons {c : Char} (h : isBlank c = false) : skip (c :: s) = c :: s := by
  rw [skip, List.dropWhile_cons_of_neg (by simp [h])]

/-- The characters of numbers start nothing else. -/
theorem numeral_ne {c : Char} (h : Text.isNumeral c) : isBlank c = false ∧ c ≠ Text.mark ∧ c ≠ '[' ∧
    c ≠ Text.openBrace ∧ c ≠ ']' ∧ c ≠ 'n' ∧ c ≠ 't' ∧ c ≠ 'f' := by
  have hblank : isBlank c = false := by
    rw [isBlank]
    simp only [Bool.or_eq_false_iff, decide_eq_false_iff_not]
    refine ⟨⟨⟨?_, ?_⟩, ?_⟩, ?_⟩ <;> rintro rfl <;> revert h <;> decide
  refine ⟨hblank, ?_, ?_, ?_, ?_, ?_, ?_, ?_⟩ <;> rintro rfl <;> revert h <;> decide

/-- The text of a number is read back. -/
theorem scalar_number {x : Number} (hx : Reads numberText x) (hs : Stops s) :
    scalar (numberText x ++ s) = some (.number x, s) := by
  obtain ⟨hne, hall⟩ := Text.isNumeral_of_isNumber hx.grammar
  obtain ⟨htake, hdrop⟩ := Text.takeWhile_append hall hs
  obtain ⟨c, t, hct⟩ := List.exists_cons_of_ne_nil hne
  obtain ⟨-, -, -, -, -, hn, ht, hf⟩ := numeral_ne (hall c (by simp [hct]))
  have hstart : ∀ (w : List Char) (d : Char), c ≠ d → ¬ (d :: w) <+: numberText x ++ s := by
    intro w d hd hpre
    rw [hct, List.cons_append, List.cons_prefix_cons] at hpre
    exact hd hpre.1.symm
  rw [scalar, if_neg (show ¬ "null".toList <+: _ from hstart _ 'n' hn),
    if_neg (show ¬ "true".toList <+: _ from hstart _ 't' ht),
    if_neg (show ¬ "false".toList <+: _ from hstart _ 'f' hf), htake, hdrop, if_pos hx.grammar, hx.value]

/-- How a printed value starts. -/
theorem print_start {v : Json} (hv : Printable numberText v) :
    ∃ c t, print numberText v = c :: t ∧ isBlank c = false ∧ c ≠ ']' := by
  cases v with
  | null => exact ⟨_, _, rfl, by decide, by decide⟩
  | bool b => cases b <;> exact ⟨_, _, rfl, by decide, by decide⟩
  | number x =>
      obtain ⟨y, rfl⟩ := hv.finite
      obtain ⟨hne, hall⟩ := Text.isNumeral_of_isNumber hv.grammar
      obtain ⟨c, t, hct⟩ := List.exists_cons_of_ne_nil hne
      obtain ⟨hblank, -, -, -, hclose, -⟩ := numeral_ne (hall c (by simp [hct]))
      exact ⟨c, t, hct, hblank, hclose⟩
  | string t => exact ⟨_, _, rfl, by decide, by decide⟩
  | array l => cases l <;> exact ⟨_, _, rfl, by decide, by decide⟩
  | object l =>
      cases l with
      | nil => exact ⟨_, _, rfl, by decide, by decide⟩
      | cons f l => exact ⟨_, _, rfl, by decide, by decide⟩

/-- The bracket behind the opening one of an array with items is no closing one. -/
theorem print_head {v : Json} (hv : Printable numberText v) :
    (skip (print numberText v ++ s)).head? ≠ some ']' := by
  obtain ⟨c, t, hct, hblank, hclose⟩ := print_start hv
  rw [hct, List.cons_append, skip_cons hblank]
  simpa using hclose

/-- A value by its first character. -/
theorem value_cons {c : Char} {t : List Char} (h : isBlank c = false) : value (n + 1) (c :: t) =
    if c = Text.mark then (Text.unquote t).map fun p => (.string p.1, p.2)
    else if c = '[' then
      if (skip t).head? = some ']' then some (.array [], (skip t).tail)
      else (value n t).bind fun p => (items n p.2).map fun q => (.array (p.1 :: q.1), q.2)
    else if c = Text.openBrace then
      if (skip t).head? = some Text.closeBrace then some (.object [], (skip t).tail)
      else (member n t).bind fun p => (members n p.2).map fun q =>
        (.object (ofFields (p.1 :: q.1)), q.2)
    else scalar (c :: t) := by
  rw [value, skip_cons h]

/-- The text of a number is read back as a value. -/
theorem value_number {x : Number} (hx : Reads numberText x) (hs : Stops s) :
    value (n + 1) (numberText x ++ s) = some (.number x, s) := by
  have hscalar := scalar_number hx hs
  obtain ⟨hne, hall⟩ := Text.isNumeral_of_isNumber hx.grammar
  obtain ⟨c, t, hct⟩ := List.exists_cons_of_ne_nil hne
  obtain ⟨hblank, hmark, hopen, hbrace, -⟩ := numeral_ne (hall c (by simp [hct]))
  rw [hct, List.cons_append] at hscalar ⊢
  rw [value_cons hblank, if_neg hmark, if_neg hopen, if_neg hbrace, hscalar]

/-- A quoted text is read back as a value. -/
theorem value_string (t : List Char) :
    value (n + 1) (Text.quote t ++ s) = some (.string t, s) := by
  rw [Text.quote, List.cons_append, value_cons (by decide), if_pos rfl, List.append_assoc,
    List.singleton_append, Text.unquote_quote, Option.map_some]

/-- A field is read back if its value is. -/
theorem member_of_value {k : List Char} {v : Json} {t : List Char} (h : value n t = some (v, s)) :
    member (n + 1) (Text.quote k ++ ':' :: t) = some ((k, v), s) := by
  rw [member, Text.quote, List.cons_append, skip_cons (by decide)]
  dsimp only
  rw [if_pos rfl, List.append_assoc, List.singleton_append, Text.unquote_quote, Option.bind_some,
    skip_cons (by decide), List.head?_cons, if_pos rfl, List.tail_cons, h, Option.map_some]

theorem stops_items (l : List Json) : Stops (printItems numberText l ++ ']' :: s) := by
  cases l <;> exact stops_cons (by decide)

/-- A number stops at the end of an object. -/
theorem stops_members (l : List (List Char × Json)) :
    Stops (printMembers numberText l ++ Text.closeBrace :: s) := by
  cases l <;> exact stops_cons (by decide)

theorem length_quote (k : List Char) : 2 ≤ (Text.quote k).length := by
  simp [Text.quote]

mutual

/-- A printed value is read up to its end. -/
theorem value_print : ∀ (v : Json) (n : ℕ) (s : List Char), Printable numberText v →
    (print numberText v).length < n → Stops s → value n (print numberText v ++ s) = some (v, s)
  | _, 0, _, _, hn, _ => absurd hn (Nat.not_lt_zero _)
  | .null, n + 1, s, _, _, _ => rfl
  | .bool true, n + 1, s, _, _, _ => rfl
  | .bool false, n + 1, s, _, _, _ => rfl
  | .number x, n + 1, s, hx, _, hs => by
      obtain ⟨y, rfl⟩ := hx.finite
      exact value_number hx hs
  | .string t, n + 1, s, _, _, _ => value_string t
  | .array [], n + 1, s, _, _, _ => rfl
  | .array (v :: l), n + 1, s, ⟨hv, hl⟩, hn, _ => by
      rw [print, List.cons_append, value_cons (by decide), if_neg (by decide), if_pos rfl]
      simp only [List.append_assoc, List.singleton_append]
      simp only [print, List.length_cons, List.length_append] at hn
      rw [if_neg (print_head hv), value_print v n _ hv (by omega) (stops_items l), Option.bind_some,
        items_print l n s hl (by omega), Option.map_some]
  | .object [], n + 1, s, _, _, _ => rfl
  | .object ((k, v) :: l), n + 1, s, ⟨hfields, hv, hl⟩, hn, _ => by
      rw [print, List.cons_append, value_cons (by decide), if_neg (by decide), if_neg (by decide),
        if_pos rfl]
      simp only [List.append_assoc, List.cons_append, List.nil_append]
      simp only [print, List.length_cons, List.length_append] at hn
      have hquote := length_quote k
      have hopen : (skip (Text.quote k ++ ':' :: (print numberText v ++ (printMembers numberText l ++
          Text.closeBrace :: s)))).head? ≠ some Text.closeBrace := by
        rw [Text.quote, List.cons_append, skip_cons (by decide)]
        exact fun h => absurd (Option.some.inj h) (by decide)
      obtain ⟨m, rfl⟩ := Nat.exists_eq_add_one.2 (show 0 < n by omega)
      have hmember := member_of_value (k := k) (value_print v m
        (printMembers numberText l ++ Text.closeBrace :: s) hv (by omega) (stops_members l))
      rw [if_neg hopen, hmember, Option.bind_some, members_print l (m + 1) s hl (by omega),
        Option.map_some, hfields]

/-- The items of an array are read back. -/
theorem items_print : ∀ (l : List Json) (n : ℕ) (s : List Char), PrintableItems numberText l →
    (printItems numberText l).length < n →
      items n (printItems numberText l ++ ']' :: s) = some (l, s)
  | _, 0, _, _, hn => absurd hn (Nat.not_lt_zero _)
  | [], n + 1, s, _, _ => rfl
  | v :: l, n + 1, s, ⟨hv, hl⟩, hn => by
      simp only [printItems, List.length_cons, List.length_append] at hn
      rw [printItems, List.cons_append, items, skip_cons (by decide)]
      dsimp only
      rw [if_neg (by decide), if_pos rfl, List.append_assoc,
        value_print v n _ hv (by omega) (stops_items l), Option.bind_some,
        items_print l n s hl (by omega), Option.map_some]

/-- The fields of an object are read back. -/
theorem members_print : ∀ (l : List (List Char × Json)) (n : ℕ) (s : List Char),
    PrintableMembers numberText l → (printMembers numberText l).length < n →
      members n (printMembers numberText l ++ Text.closeBrace :: s) = some (l, s)
  | _, 0, _, _, hn => absurd hn (Nat.not_lt_zero _)
  | [], n + 1, s, _, _ => rfl
  | (k, v) :: l, n + 1, s, ⟨hv, hl⟩, hn => by
      have hquote := length_quote k
      simp only [printMembers, List.length_cons, List.length_append] at hn
      obtain ⟨m, rfl⟩ := Nat.exists_eq_add_one.2 (show 0 < n by omega)
      have hmember := member_of_value (k := k) (value_print v m
        (printMembers numberText l ++ Text.closeBrace :: s) hv (by omega) (stops_members l))
      rw [printMembers, List.cons_append, members, skip_cons (by decide)]
      dsimp only
      rw [if_neg (by decide), if_pos rfl]
      simp only [List.append_assoc, List.cons_append]
      rw [hmember, Option.bind_some, members_print l (m + 1) s hl (by omega), Option.map_some]

end

/-- **What is printed reads back.** -/
theorem parse_print {v : Json} (h : Printable numberText v) : parse (print numberText v) = some v := by
  have hvalue := value_print v _ [] h (Nat.lt_succ_self _) (by simp [Stops])
  rw [List.append_nil] at hvalue
  rw [parse, hvalue]
  rfl

end

end Json
