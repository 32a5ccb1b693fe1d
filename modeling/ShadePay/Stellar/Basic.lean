import ShadePay.Field
import ShadePay.Lib.Bytes
import ShadePay.Lib.Guard

/-!
# Byte strings of fixed width

`BytesN<n>` of the Soroban SDK, and the scalars of BLS12-381 as 32-byte words: `frFromBytes` reduces
the big-endian number a word spells, `frToBytes` writes the canonical representative.
-/

namespace ShadePay.Stellar

/-- `BytesN<n>`: a byte string of width `n`. -/
structure BytesN (n : ℕ) where
  bytes : List UInt8
  length_eq : bytes.length = n
deriving DecidableEq

/-- A 32-byte word. -/
abbrev Bytes32 : Type := BytesN 32

namespace BytesN

variable {n : ℕ}

/-- Words are equal if their bytes are. -/
theorem ext {b c : BytesN n} (h : b.bytes = c.bytes) : b = c := by
  obtain ⟨b, hb⟩ := b
  obtain ⟨c, hc⟩ := c
  cases h
  rfl

/-- The big-endian number a byte string spells. -/
def toNat (b : BytesN n) : ℕ := Bytes.toNat b.bytes

/-- The `n` low bytes of a number. -/
def ofNat (n x : ℕ) : BytesN n := ⟨Bytes.ofNat n x, Bytes.length_ofNat n x⟩

/-- A word of `n` bytes is below `256 ^ n`. -/
theorem toNat_lt (b : BytesN n) : b.toNat < 256 ^ n := by
  have := Bytes.toNat_lt b.bytes
  rwa [b.length_eq] at this

theorem toNat_ofNat {x : ℕ} (hx : x < 256 ^ n) : (ofNat n x).toNat = x := Bytes.toNat_ofNat_of_lt hx

/-- A word is determined by its number. -/
theorem toNat_injective : Function.Injective (toNat : BytesN n → ℕ) := by
  rintro ⟨b, hb⟩ ⟨c, hc⟩ h
  cases Bytes.toNat_injective (hb.trans hc.symm) h
  rfl

/-- A word is read back from its number. -/
theorem ofNat_toNat (b : BytesN n) : ofNat n b.toNat = b := by
  have hbytes := Bytes.ofNat_toNat b.bytes
  rw [b.length_eq] at hbytes
  exact ext hbytes

end BytesN

/-- `Fr::from_bytes`. -/
def frFromBytes (b : Bytes32) : Bls12381 := (b.toNat : ℕ)

/-- `Fr::to_bytes`. -/
def frToBytes (x : Bls12381) : Bytes32 := .ofNat 32 x.val

theorem bls12381_lt_word : bls12381 < 256 ^ 32 := by decide

theorem toNat_frToBytes (x : Bls12381) : (frToBytes x).toNat = x.val :=
  BytesN.toNat_ofNat (lt_trans (ZMod.val_lt x) bls12381_lt_word)

@[simp] theorem frFromBytes_frToBytes (x : Bls12381) : frFromBytes (frToBytes x) = x := by
  rw [frFromBytes, toNat_frToBytes, ZMod.natCast_zmod_val]

/-- A canonical word is the encoding of the scalar it spells. -/
theorem frToBytes_frFromBytes {b : Bytes32} (hb : b.toNat < bls12381) :
    frToBytes (frFromBytes b) = b := by
  apply BytesN.toNat_injective
  rw [toNat_frToBytes, frFromBytes, ZMod.val_natCast, Nat.mod_eq_of_lt hb]

end ShadePay.Stellar
