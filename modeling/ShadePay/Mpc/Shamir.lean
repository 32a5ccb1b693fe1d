import ShadePay.Field

/-!
# Shares of an amount

`packages/mpc-crypto/src/shamir.ts`, and the part of `committee.ts` that turns decrypted shares into
an amount. The numbers are JavaScript's `bigint`: `/` and `%` round toward zero. A share arrives as
two strings, which `BigInt` may refuse; `reconstructAmount` is then `none`.
-/

namespace ShadePay.Mpc

/-- `P`, the order of BN254. -/
def P : ℤ := bn254

/-- `modp`. -/
def modp (x : ℤ) : ℤ := (x.tmod P + P).tmod P

/-- The loop of `modinv`. -/
def modinvLoop (oldR r oldS s : ℤ) : ℤ :=
  if r = 0 then oldS
  else
    let q := oldR.tdiv r
    modinvLoop r (oldR - q * r) s (oldS - q * s)
termination_by r.natAbs
decreasing_by
  rename_i h
  have hmod : oldR - oldR.tdiv r * r = oldR.tmod r := by
    rw [Int.tmod_def, mul_comm]
  rw [hmod, Int.natAbs_tmod]
  exact Nat.mod_lt _ (Int.natAbs_pos.2 h)

/-- `modinv`. -/
def modinv (a : ℤ) : ℤ := modp (modinvLoop (modp a) P 1 0)

/-- `Share`. -/
structure Share where
  x : ℤ
  y : ℤ
deriving DecidableEq

/-- The numerator and denominator of the Lagrange coefficient of the share at position `i`. -/
def lagrange (i : ℕ) (si : Share) : List (Share × ℕ) → ℤ × ℤ → ℤ × ℤ
  | [], acc => acc
  | (sj, j) :: rest, (num, den) =>
      if i = j then lagrange i si rest (num, den)
      else lagrange i si rest (modp (num * modp (-sj.x)), modp (den * (si.x - sj.x)))

/-- `shamirReconstruct`. -/
def shamirReconstruct (shares : List Share) : ℤ :=
  shares.zipIdx.foldl (fun secret (si, i) =>
    let (num, den) := lagrange i si shares.zipIdx (1, 1)
    modp (secret + modp (si.y * modp (num * modinv den)))) 0

/-! ## Shares as text -/

/-- A share as `encodeShare` writes it. -/
structure EncodedShare where
  x : String
  y : String
deriving DecidableEq

/-- White space and line terminators of ECMAScript. -/
def isSpace (c : Char) : Bool :=
  c.toNat ∈ [9, 10, 11, 12, 13, 32, 160, 5760, 8232, 8233, 8239, 8287, 12288, 65279] ∨
    8192 ≤ c.toNat ∧ c.toNat ≤ 8202

/-- The value of a digit in a base. -/
def digit (base : ℕ) (c : Char) : Option ℕ :=
  let d := if c.isDigit then c.toNat - 48
    else if 'a' ≤ c ∧ c ≤ 'z' then c.toNat - 87
    else if 'A' ≤ c ∧ c ≤ 'Z' then c.toNat - 55
    else base
  if d < base then some d else none

/-- A sequence of digits, most significant first. -/
def digits (base : ℕ) : List Char → ℕ → Option ℕ
  | [], acc => some acc
  | c :: cs, acc =>
      match digit base c with
      | some d => digits base cs (acc * base + d)
      | none => none

/-- One or more digits. -/
def numeral (base : ℕ) (cs : List Char) : Option ℕ := if cs = [] then none else digits base cs 0

/-- `BigInt` of a string: a decimal number with an optional sign, or a number with a base prefix,
between white space; nothing is zero. -/
def bigInt (s : String) : Option ℤ :=
  match ((s.toList.dropWhile isSpace).reverse.dropWhile isSpace).reverse with
  | [] => some 0
  | '0' :: 'x' :: cs | '0' :: 'X' :: cs => (numeral 16 cs).map Int.ofNat
  | '0' :: 'o' :: cs | '0' :: 'O' :: cs => (numeral 8 cs).map Int.ofNat
  | '0' :: 'b' :: cs | '0' :: 'B' :: cs => (numeral 2 cs).map Int.ofNat
  | '-' :: cs => (numeral 10 cs).map fun n => -(n : ℤ)
  | '+' :: cs => (numeral 10 cs).map Int.ofNat
  | cs => (numeral 10 cs).map Int.ofNat

/-- `decodeShare`. -/
def decodeShare (e : EncodedShare) : Option Share := do
  let x ← bigInt e.x
  let y ← bigInt e.y
  return ⟨x, y⟩

/-- `reconstructAmount`: `none` when a share does not parse. -/
def reconstructAmount (decryptedShares : List EncodedShare) : Option ℤ :=
  (decryptedShares.mapM decodeShare).map shamirReconstruct

end ShadePay.Mpc
