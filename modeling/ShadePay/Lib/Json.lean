import ShadePay.Lib.Number

/-!
# JSON values in JavaScript

The values `JSON.parse` makes, and what the conversions `BigInt(x)` and `Number(x)` make of them. An
object or an array is first converted to a text, so that an array of one text counts as that text; an
object whose own `toString` hides the inherited one cannot be converted. `none` is a thrown
`TypeError`, `SyntaxError` or `RangeError`.
-/

/-- A value of `JSON.parse`. The keys of an object are distinct. -/
inductive Json where
  | null
  | bool (b : Bool)
  | number (x : Number)
  | string (s : List Char)
  | array (l : List Json)
  | object (fields : List (List Char × Json))

/-! ## Numbers in texts -/

namespace Text

/-- A character that `trim` takes off. -/
def isSpace (c : Char) : Bool :=
  c.toNat ∈ [9, 10, 11, 12, 13, 32, 0xA0, 0x1680, 0x2028, 0x2029, 0x202F, 0x205F, 0x3000, 0xFEFF] ||
    (0x2000 ≤ c.toNat && c.toNat ≤ 0x200A)

/-- `trim`. -/
def trim (s : List Char) : List Char := ((s.dropWhile isSpace).reverse.dropWhile isSpace).reverse

/-- The value of a digit, up to base 36. -/
def digitValue (c : Char) : ℕ :=
  if c.isDigit then c.toNat - 48
  else if c.isLower then c.toNat - 87
  else if c.isUpper then c.toNat - 55
  else 36

/-- The number that digits spell, at least one. -/
def ofDigits (base : ℕ) (s : List Char) : Option ℕ :=
  if s ≠ [] ∧ s.all (digitValue · < base) then
    some (s.foldl (fun n c => base * n + digitValue c) 0)
  else none

/-- A number with the prefix of another base. -/
def ofPrefixed : List Char → Option ℕ
  | '0' :: c :: s =>
      if c = 'x' ∨ c = 'X' then ofDigits 16 s
      else if c = 'o' ∨ c = 'O' then ofDigits 8 s
      else if c = 'b' ∨ c = 'B' then ofDigits 2 s
      else none
  | _ => none

/-- Decimal digits, with or without a sign. -/
def ofSigned : List Char → Option ℤ
  | '+' :: s => (ofDigits 10 s).map fun n => n
  | '-' :: s => (ofDigits 10 s).map fun n => -n
  | s => (ofDigits 10 s).map fun n => n

/-- `StringToBigInt`. -/
def toBigInt (s : List Char) : Option ℤ :=
  if trim s = [] then some 0
  else match ofPrefixed (trim s) with
    | some n => some n
    | none => ofSigned (trim s)

/-- The exponent behind the digits of a decimal number. -/
def exponent : List Char → Option ℤ
  | [] => some 0
  | c :: s => if c = 'e' ∨ c = 'E' then ofSigned s else none

/-- A decimal number without a sign: digits, some of them behind a point, and an exponent. -/
def unsignedDecimal (s : List Char) : Option ℚ :=
  let whole := s.takeWhile Char.isDigit
  let rest := s.dropWhile Char.isDigit
  let fraction := if rest.head? = some '.' then rest.tail.takeWhile Char.isDigit else []
  let rest := if rest.head? = some '.' then rest.tail.dropWhile Char.isDigit else rest
  do
    let n ← ofDigits 10 (whole ++ fraction)
    let e ← exponent rest
    return n * (10 : ℚ) ^ (e - fraction.length)

/-- A decimal number or `Infinity`, without a sign but negated as told. -/
def decimal (negative : Bool) (s : List Char) : Number :=
  if s = "Infinity".toList then .infinity negative
  else match unsignedDecimal s with
    | some q => Number.ofRat (if negative then -q else q)
    | none => .nan

/-- `StringToNumber`. -/
def toNumber (s : List Char) : Number :=
  if trim s = [] then Number.ofRat 0
  else match ofPrefixed (trim s) with
    | some n => Number.ofRat n
    | none => match trim s with
      | '+' :: t => decimal false t
      | '-' :: t => decimal true t
      | t => decimal false t

/-- The code points of the decimal digits. -/
theorem toNat_of_digitValue {c : Char} (h : digitValue c < 10) : 48 ≤ c.toNat ∧ c.toNat ≤ 57 := by
  unfold digitValue at h
  split at h
  · next hd =>
    simp only [Char.isDigit, Bool.and_eq_true, decide_eq_true_eq] at hd
    exact hd
  · split at h
    · next hl =>
      have : 97 ≤ c.toNat := of_decide_eq_true (Bool.and_eq_true_iff.1 hl).1
      omega
    · split at h
      · next hu =>
        have : 65 ≤ c.toNat := (of_decide_eq_true hu).1
        omega
      · omega

/-- A digit is no space. -/
theorem isSpace_of_digitValue {c : Char} (h : digitValue c < 10) : isSpace c = false := by
  obtain ⟨h1, h2⟩ := toNat_of_digitValue h
  simp only [isSpace, List.mem_cons, List.not_mem_nil, or_false, Bool.or_eq_false_iff,
    decide_eq_false_iff_not, Bool.and_eq_false_iff]
  omega

/-- A text without spaces is trimmed already. -/
theorem trim_of_not_isSpace {s : List Char} (h : ∀ c ∈ s, isSpace c = false) : trim s = s := by
  have hdrop : ∀ l : List Char, (∀ c ∈ l, isSpace c = false) → l.dropWhile isSpace = l := by
    intro l hl
    cases l with
    | nil => rfl
    | cons c l => rw [List.dropWhile_cons_of_neg (by simp [hl c])]
  rw [trim, hdrop s h, hdrop s.reverse (by simpa using h), List.reverse_reverse]

/-- No digit is the letter of a prefix or a sign. -/
theorem ne_of_digitValue {c : Char} (h : digitValue c < 10) : c ≠ 'x' ∧ c ≠ 'X' ∧ c ≠ 'o' ∧ c ≠ 'O' ∧
    c ≠ 'b' ∧ c ≠ 'B' ∧ c ≠ '+' ∧ c ≠ '-' := by
  have := toNat_of_digitValue h
  refine ⟨?_, ?_, ?_, ?_, ?_, ?_, ?_, ?_⟩ <;> rintro rfl <;> revert this <;> decide

/-- A text of digits has no prefix of another base. -/
theorem ofPrefixed_of_digitValue {s : List Char} (h : ∀ c ∈ s, digitValue c < 10) :
    ofPrefixed s = none := by
  unfold ofPrefixed
  split
  · next c t =>
    obtain ⟨h1, h2, h3, h4, h5, h6, -, -⟩ := ne_of_digitValue (h c (by simp))
    simp [h1, h2, h3, h4, h5, h6]
  · rfl

/-- `BigInt` of a string of decimal digits is the number they spell. -/
theorem toBigInt_of_ofDigits {s : List Char} {n : ℕ} (h : ofDigits 10 s = some n) :
    toBigInt s = some (n : ℤ) := by
  have hs : s ≠ [] ∧ ∀ c ∈ s, digitValue c < 10 := by
    by_contra hne
    rw [ofDigits, if_neg (by simpa using hne)] at h
    cases h
  obtain ⟨hnil, hdig⟩ := hs
  rw [toBigInt, trim_of_not_isSpace fun c hc => isSpace_of_digitValue (hdig c hc), if_neg hnil,
    ofPrefixed_of_digitValue hdig]
  simp only [ofSigned]
  split
  · exact absurd rfl (ne_of_digitValue (hdig '+' (by simp))).2.2.2.2.2.2.1
  · exact absurd rfl (ne_of_digitValue (hdig '-' (by simp))).2.2.2.2.2.2.2
  · rw [h]
    rfl

end Text

/-! ## Conversions -/

/-- The integer a number is, if any. -/
def Number.toInt? : Number → Option ℤ
  | .finite x => if x.val.den = 1 then some x.val.num else none
  | _ => none

namespace Json

section
variable (numberText : Number → List Char)

mutual

/-- The text of a value, given that of numbers; as a member of an array, where `null` has none. -/
def toText : Json → Option (List Char)
  | .null => some []
  | .bool b => some (if b then "true".toList else "false".toList)
  | .number x => some (numberText x)
  | .string s => some s
  | .array l => (toTexts l).map [','].intercalate
  | .object fields =>
      if fields.any (·.1 = "toString".toList) then none else some "[object Object]".toList

def toTexts : List Json → Option (List (List Char))
  | [] => some []
  | v :: l => do return (← toText v) :: (← toTexts l)

end

/-- `BigInt(x)`. -/
def toBigInt : Json → Option ℤ
  | .null => none
  | .bool b => some (if b then 1 else 0)
  | .number x => x.toInt?
  | .string s => Text.toBigInt s
  | v => (toText numberText v).bind Text.toBigInt

/-- `Number(x)`. -/
def toNumber : Json → Option Number
  | .null => some (Number.ofRat 0)
  | .bool b => some (Number.ofRat (if b then 1 else 0))
  | .number x => some x
  | .string s => some (Text.toNumber s)
  | v => (toText numberText v).map Text.toNumber

end

/-- The field of an object; of another value nothing. -/
def get (name : String) : Json → Option Json
  | .object fields => fields.lookup name.toList
  | _ => none

end Json
