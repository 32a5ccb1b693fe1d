import ShadePay.Stellar.Scenario
import ShadePay.Circuit.Values

/-!
# What a deposit binds

`receive_cctp_deposit` compares the numeric signals of a deposit proof with its arguments after
`fr32_to_i128`, which looks at the low 16 bytes of a word only, while the circuit reads the whole
word as a scalar. `Stellar.deposit_binding` says what that leaves of the promise that a registrar cannot
insert a note that does not match the deposit: it holds when the words have no high half, and on
canonical amount words only then. `deposit_mints_more` is a deposit of 100 that mints 101.
-/

namespace ShadePay.Stellar

/-- The integer a signal word stands for in the circuit. -/
def signalVal (w : Bytes32) : ℕ := (frFromBytes w).val

theorem signalVal_of_lt {w : Bytes32} (h : w.toNat < bls12381) : signalVal w = w.toNat := by
  rw [signalVal, frFromBytes, ZMod.val_natCast, Nat.mod_eq_of_lt h]

/-- What a deposit should bind: the note's value within the amount, the amount within ten times the
burned one, and the checked fields as the circuit reads them. -/
structure DepositBound (s : State) (sourceDomain : ℕ) (amount : ℤ) (x : DepositPub Bytes32)
    (value : Bls12381) : Prop where
  value : (value.val : ℤ) ≤ amount
  amount6 : amount ≤ 10 * signalVal x.amount6dp
  operation : signalVal x.operationType = 4
  source : signalVal x.sourceDomain = sourceDomain
  destination : signalVal x.destinationDomain = 27
  pool : signalVal x.poolId = s.poolId
  chain : signalVal x.chainId = s.chainId

/-- The compared words have no high half, and the 6dp amount is canonical. -/
structure PlainWords (x : DepositPub Bytes32) : Prop where
  operation : x.operationType.toNat < 2 ^ 128
  source : x.sourceDomain.toNat < 2 ^ 128
  destination : x.destinationDomain.toNat < 2 ^ 128
  amount7 : x.amount7dp.toNat < 2 ^ 128
  pool : x.poolId.toNat < 2 ^ 128
  chain : x.chainId.toNat < 2 ^ 128
  amount6 : x.amount6dp.toNat < bls12381

/-! ## Words under the decoding -/

/-- A non-negative decoding is the low half of the word. -/
theorem mod_of_fr32ToI128 {w : Bytes32} {x : ℤ} (h : fr32ToI128 w = x) (hx : 0 ≤ x) :
    ((w.toNat % 2 ^ 128 : ℕ) : ℤ) = x := by
  rw [fr32ToI128_eq, asI128] at h
  have := Nat.mod_lt w.toNat (show 0 < 2 ^ 128 by norm_num)
  split at h <;> omega

/-- No multiple of the field order below `2 ^ 256` is a multiple of `2 ^ 128`. -/
theorem eq_of_mod_eq {n c : ℕ} (hlt : n < 256 ^ 32) (h1 : n % bls12381 = c)
    (h2 : n % 2 ^ 128 = c) : n = c := by
  have hn := Nat.div_add_mod n bls12381
  have hq : n / bls12381 < 3 := by
    rw [Nat.div_lt_iff_lt_mul (by decide)]
    exact lt_of_lt_of_le hlt (by decide)
  rw [h1] at hn
  generalize n / bls12381 = q at hn hq
  rw [bls12381] at hn
  interval_cases q <;> omega

/-- A compared word agrees with what the circuit reads exactly when it has no high half. -/
theorem signalVal_eq_iff {w : Bytes32} {c : ℕ} (h : fr32ToI128 w = c) :
    signalVal w = c ↔ w.toNat < 2 ^ 128 := by
  have hmod : w.toNat % 2 ^ 128 = c := by exact_mod_cast mod_of_fr32ToI128 h (by positivity)
  constructor
  · intro hv
    rw [signalVal, frFromBytes, ZMod.val_natCast] at hv
    rw [eq_of_mod_eq w.toNat_lt hv hmod, ← hmod]
    exact Nat.mod_lt _ (by norm_num)
  · intro hb
    rw [signalVal_of_lt (lt_trans hb (by decide)), ← hmod, Nat.mod_eq_of_lt hb]

/-! ## The binding -/

section
variable {E : Env} {s s' : State} {auth : Address → Bool} {sourceDomain i : ℕ}
  {cctpNonce commitment newRoot enc policyId : Bytes32} {asset : Address} {amount : ℤ}
  {proof pub : List UInt8}

/-- **Deposit binding.** A successful deposit inserts the commitment of a note that its proof opens,
and for every such opening the promise holds when the compared words have no high half; on canonical
amount words it holds in no other case. -/
theorem deposit_binding (hE : E.Sound)
    (h : s.receiveCctpDeposit E auth sourceDomain cctpNonce asset amount commitment newRoot enc
      policyId proof pub = .ok (i, s')) :
    ∃ x : DepositPub Bytes32, parsePublicSignals pub = .ok x.toList ∧ x.commitment = commitment ∧
      s'.tree.leaves = s.tree.leaves ++ [commitment] ∧
      (∃ w, DepositNoteMint E.poseidon (x.map frFromBytes) w) ∧
      ∀ w, DepositNoteMint E.poseidon (x.map frFromBytes) w →
        (PlainWords x → DepositBound s sourceDomain amount x w.value) ∧
        (x.amount6dp.toNat < bls12381 → x.amount7dp.toNat < bls12381 →
          (DepositBound s sourceDomain amount x w.value ↔ PlainWords x)) := by
  obtain ⟨signals, v, op, src, dst, a6, a7, pIn, cIn, hp, hv, hver, hpos, h0, h1, hop, h2, hsrc, h3,
    hdst, h6, ha6, hle, h7, ha7, h8, h12, hpool, h13, hchain, hroom, hroot, -, -, rfl⟩ :=
    State.receiveCctpDeposit_inv h
  obtain ⟨x, w₀, rfl, hw₀⟩ := (E.holds_of_verify hE hver hp).deposit
  obtain ⟨rfl, rfl, rfl, rfl, rfl, rfl, rfl, rfl⟩ : x.operationType = op ∧ x.sourceDomain = src ∧
      x.destinationDomain = dst ∧ x.amount6dp = a6 ∧ x.amount7dp = a7 ∧ x.poolId = pIn ∧
      x.chainId = cIn ∧ x.commitment = commitment :=
    ⟨Option.some.inj h1, Option.some.inj h2, Option.some.inj h3, Option.some.inj h6,
      Option.some.inj h7, Option.some.inj h12, Option.some.inj h13, Option.some.inj h0⟩
  have hm7 := mod_of_fr32ToI128 ha7 hpos.le
  have hm6 := mod_of_fr32ToI128 rfl ha6.le
  have key : ∀ w, DepositNoteMint E.poseidon (x.map frFromBytes) w → PlainWords x →
      DepositBound s sourceDomain amount x w.value := by
    intro w hw hx
    have hval : w.value.val ≤ signalVal x.amount7dp := hw.values.1
    rw [signalVal_of_lt (lt_trans hx.amount7 (by decide))] at hval
    have h7lt := hx.amount7
    refine ⟨by omega, ?_, (signalVal_eq_iff (by exact_mod_cast hop)).2 hx.operation,
      (signalVal_eq_iff hsrc).2 hx.source, (signalVal_eq_iff (by exact_mod_cast hdst)).2 hx.destination,
      (signalVal_eq_iff hpool).2 hx.pool, (signalVal_eq_iff hchain).2 hx.chain⟩
    rw [signalVal_of_lt hx.amount6]
    omega
  refine ⟨x, hp, rfl, by simp [State.pushed], ⟨w₀, hw₀⟩, fun w hw => ⟨key w hw, ?_⟩⟩
  intro hc6 hc7
  refine ⟨fun hb => ?_, key w hw⟩
  refine ⟨(signalVal_eq_iff (by exact_mod_cast hop)).1 hb.operation,
    (signalVal_eq_iff hsrc).1 hb.source, (signalVal_eq_iff (by exact_mod_cast hdst)).1 hb.destination,
    ?_, (signalVal_eq_iff hpool).1 hb.pool, (signalVal_eq_iff hchain).1 hb.chain, hc6⟩
  -- a high half of the 7dp word would let the value exceed the amount, and would force it to
  have hval : signalVal x.amount7dp < w.value.val + 2 ^ 128 := hw.values.2.1
  have hbv := hb.value
  rw [signalVal_of_lt hc7] at hval
  omega

end

/-- A deployment with ideal verifiers, for any hash functions of one's choice. -/
noncomputable def idealEnv (E : Env) : Env := E.withVerifier (idealVerifier E.poseidon)

/-- A deployment to run samples in. -/
noncomputable def sampleEnv : Env :=
  idealEnv ⟨fun l => l.sum, fun b => word b.length, fun _ _ _ => true, fun _ _ _ _ => false, acct 2⟩

/-- The honest deposit of 100 units into a note of 100 binds. -/
theorem deposit_binding_sample : ∃ x w, DepositNoteMint sampleEnv.poseidon
    (DepositPub.map frFromBytes x) w ∧ PlainWords x ∧ DepositBound (ready sampleEnv) 0 100 x w.value := by
  have hE : sampleEnv.Exact := exact_idealVerifier _
  obtain ⟨proof, hok⟩ := @deposit_ready _ hE 100 100 0 (by norm_num) (by norm_num) le_rfl
    (by norm_num) (fr32ToI128_word (by norm_num))
  obtain ⟨x, hp, -, -, -, hall⟩ := deposit_binding hE.sound hok
  rw [parsePublicSignals_encodeSignals (by simp)] at hp
  cases DepositPub.toList_injective (Except.ok.inj hp)
  have hplain : PlainWords (depositWords sampleEnv 100 (usdcNote sampleEnv (100 : ℕ) 0)) := by
    have hw : ∀ n < 2 ^ 128, (word n).toNat < 2 ^ 128 := fun n hn => by
      rwa [toNat_word (lt_trans hn (by norm_num))]
    refine ⟨hw 4 (by norm_num), hw 0 (by norm_num), hw 27 (by norm_num), hw 100 (by norm_num),
      hw 0 (by norm_num), hw 0 (by norm_num), ?_⟩
    exact lt_trans (hw 10 (by norm_num)) (by decide)
  have hsat := @depositNoteMint_depositWords sampleEnv 100 100 0 (by norm_num) (by norm_num) le_rfl
    (by norm_num)
  exact ⟨_, _, hsat, hplain, (hall _ hsat).1 hplain⟩

/-- Whatever the hashes, with exact verifiers a deposit of 100 units whose 7dp word is
`100 + 2 ^ 128` inserts a note of 101 units. -/
theorem deposit_mints_more :
    ¬ ∃ E₀ : Env, ∀ g, (E₀.withVerifier g).Exact →
      ∀ s auth sourceDomain cctpNonce asset amount commitment newRoot enc policyId proof pub i s',
        State.receiveCctpDeposit (E₀.withVerifier g) auth sourceDomain cctpNonce asset amount
          commitment newRoot enc policyId proof pub s = .ok (i, s') →
        ∀ x w, parsePublicSignals pub = .ok (DepositPub.toList x) →
          DepositNoteMint E₀.poseidon (x.map frFromBytes) w →
          DepositBound s sourceDomain amount x w.value := by
  rintro ⟨E₀, h⟩
  have hE := exact_idealVerifier E₀
  have hlow : fr32ToI128 (word (100 + 2 ^ 128)) = 100 := by
    rw [fr32ToI128_eq, toNat_word (by norm_num)]
    rfl
  obtain ⟨proof, hok⟩ := @deposit_ready _ hE (100 + 2 ^ 128) 101 0 (by norm_num) (by norm_num)
    (by norm_num) (by norm_num) hlow
  have hsat := @depositNoteMint_depositWords (E₀.withVerifier (idealVerifier E₀.poseidon))
    (100 + 2 ^ 128) 101 0 (by norm_num) (by norm_num) (by norm_num) (by norm_num)
  have hb := h _ hE _ _ _ _ _ _ _ _ _ _ _ _ _ _ hok _ _
    (parsePublicSignals_encodeSignals (by simp)) hsat
  have hval : ((101 : ℕ) : Bls12381).val = 101 := by
    rw [ZMod.val_natCast, Nat.mod_eq_of_lt (by decide)]
  have := hb.value
  rw [hval] at this
  norm_num at this

end ShadePay.Stellar
