import Mathlib.Data.List.Sort
import ShadePay.Circuit.Templates
import ShadePay.Evm.Basic
import ShadePay.Lib.Number

/-!
# The streaming relayer's choice of batches

`apps/relayer/src/stream-relayer.ts`: which pending settlements are ready to close, and how they are
split into batches. The loop over the ready list moves on by the policy's `maxBatchSize`, which is any
number; it goes through `selectSettlementBatches` with fuel, and a selection returns when some amount
of fuel suffices. `selectSettlementBatches_iff` says for which sizes the batches are what they should
be: the loop has to start the `k`-th batch `k` whole sizes in.
-/

namespace ShadePay.Streams

open Number

/-- A settlement to submit, with what the relayer decides by. The signals are the words that their
strings denote. -/
structure PendingSettlement where
  channelId : ℤ
  proof : Evm.Groth16Proof
  publicSignals : StreamSettlePub ℕ
  expiryBlock : ℤ
  cumulative : ℤ
deriving DecidableEq

structure BatchPolicy where
  closeBeforeExpiryBlocks : ℤ
  minValueToClose : ℤ
  maxBatchSize : Number

/-- The filter of `selectSettlementBatches`. -/
def isReady (currentBlock : ℤ) (policy : BatchPolicy) (s : PendingSettlement) : Bool :=
  decide (currentBlock ≥ s.expiryBlock - policy.closeBeforeExpiryBlocks) ||
    decide (s.cumulative ≥ policy.minValueToClose)

/-- The loop of `selectSettlementBatches` from the index `i` on. -/
def batchLoop (ready : List PendingSettlement) (maxBatchSize : Number) :
    ℕ → Number → Option (List (List PendingSettlement))
  | 0, _ => none
  | fuel + 1, i =>
      if i.lt (ofRat ready.length) then do
        let rest ← batchLoop ready maxBatchSize fuel (i.add maxBatchSize)
        return slice ready i (i.add maxBatchSize) :: rest
      else return []

/-- The ready settlements, soonest expiry first. -/
def sortedReady (pending : List PendingSettlement) (currentBlock : ℤ) (policy : BatchPolicy) :
    List PendingSettlement :=
  (pending.filter (isReady currentBlock policy)).mergeSort fun a b =>
    decide (a.expiryBlock ≤ b.expiryBlock)

def selectSettlementBatches (fuel : ℕ) (pending : List PendingSettlement) (currentBlock : ℤ)
    (policy : BatchPolicy) : Option (List (List PendingSettlement)) :=
  batchLoop (sortedReady pending currentBlock policy) policy.maxBatchSize fuel (ofRat 0)

/-! ## What a selection should be -/

/-- The batches hold each ready settlement once, soonest expiry first; none is empty or larger than
the policy's size. -/
structure Selected (pending : List PendingSettlement) (currentBlock : ℤ) (policy : BatchPolicy)
    (batches : List (List PendingSettlement)) : Prop where
  lossless : batches.flatten.Perm (pending.filter (isReady currentBlock policy))
  ordered : batches.flatten.Pairwise (·.expiryBlock ≤ ·.expiryBlock)
  sized : ∀ b ∈ batches, b ≠ [] ∧ (ofRat b.length).le policy.maxBatchSize = true

/-- The size splits a list of length `n`: it is infinite, or at least one and its multiples, as sums of
doubles, pick up no whole unit from its fraction before they reach `n`. -/
def Splits (size : Number) (n : ℕ) : Prop :=
  n = 0 ∨ size = .infinity false ∨ ∃ x : Double, size = .finite x ∧ 1 ≤ x.val ∧
    ∀ k, k * ⌊x.val⌋₊ < n → position n (size.multiple k) = k * ⌊x.val⌋₊

/-- The sorted settlements are the ready ones. -/
theorem sortedReady_perm (pending : List PendingSettlement) (currentBlock : ℤ)
    (policy : BatchPolicy) :
    (sortedReady pending currentBlock policy).Perm (pending.filter (isReady currentBlock policy)) :=
  List.mergeSort_perm ..

/-- They are in the order of their expiry. -/
theorem sortedReady_ordered (pending : List PendingSettlement) (currentBlock : ℤ)
    (policy : BatchPolicy) :
    (sortedReady pending currentBlock policy).Pairwise (·.expiryBlock ≤ ·.expiryBlock) := by
  have h := @List.pairwise_mergeSort PendingSettlement
    (fun a b => decide (a.expiryBlock ≤ b.expiryBlock))
    (fun a b c hab hbc => decide_eq_true ((of_decide_eq_true hab).trans (of_decide_eq_true hbc)))
    (fun a b => by simpa using le_total a.expiryBlock b.expiryBlock)
    (pending.filter (isReady currentBlock policy))
  exact h.imp of_decide_eq_true

/-! ## The loop -/

section
variable {ready : List PendingSettlement} {size : Number}

/-- The loop does not return while the index stays below the length. -/
theorem batchLoop_never (h : ∀ k, (size.multiple k).lt (ofRat ready.length) = true) (fuel k : ℕ) :
    batchLoop ready size fuel (size.multiple k) = none := by
  induction fuel generalizing k with
  | zero => rfl
  | succ fuel ih =>
      rw [batchLoop, if_pos (h k)]
      have := ih (k + 1)
      rw [multiple] at this
      rw [this]
      rfl

/-- The batch between two indices and the rest of the list. -/
theorem slice_append_drop {α : Type} (l : List α) {i j : Number}
    (h : position l.length i ≤ position l.length j) :
    slice l i j ++ l.drop (position l.length j) = l.drop (position l.length i) := by
  rw [slice, ← List.drop_append_of_le_length (by rw [List.length_take]; have := position_le l.length j; omega),
    List.take_append_drop]

/-- The length of a slice. -/
theorem length_slice {α : Type} (l : List α) (i j : Number) :
    (slice l i j).length = position l.length j - position l.length i := by
  rw [slice, List.length_drop, List.length_take, min_eq_left (position_le _ _)]

/-- The loop from the start of the `k`-th batch on, when the size splits the list. -/
theorem batchLoop_splits {x : Double} (hn : ready.length ≤ 2 ^ 53) (hx : 1 ≤ x.val)
    (hsplit : ∀ k, k * ⌊x.val⌋₊ < ready.length →
      position ready.length (multiple (.finite x) k) = k * ⌊x.val⌋₊) (d k : ℕ)
    (hd : ready.length - position ready.length (multiple (.finite x) k) ≤ d)
    (hk : k * ⌊x.val⌋₊ < ready.length ∨
      position ready.length (multiple (.finite x) k) = ready.length) :
    ∃ fuel batches, batchLoop ready (.finite x) fuel (multiple (.finite x) k) = some batches ∧
      batches.flatten = ready.drop (position ready.length (multiple (.finite x) k)) ∧
      ∀ b ∈ batches, b ≠ [] ∧ b.length ≤ ⌊x.val⌋₊ := by
  have hx0 : 0 ≤ x.val := by linarith
  have hF : 1 ≤ ⌊x.val⌋₊ := Nat.le_floor (by exact_mod_cast hx)
  have hnn : Nonneg (.finite x) := .inl ⟨x, rfl, hx0⟩
  have hlt := (hnn.multiple k).lt_iff hn
  induction d generalizing k with
  | zero =>
      have hge : ¬ position ready.length (multiple (.finite x) k) < ready.length := by omega
      refine ⟨1, [], ?_, ?_, by simp⟩
      · rw [batchLoop, if_neg (hlt.not.2 hge)]
        rfl
      · rw [List.flatten_nil, List.drop_of_length_le (by omega)]
  | succ d ih =>
      by_cases hpos : position ready.length (multiple (.finite x) k) < ready.length
      · have hk : k * ⌊x.val⌋₊ < ready.length := hk.resolve_right hpos.ne
        have hpk := hsplit k hk
        have hmin := le_position_multiple hx0 hn hpos
        have hle := position_le ready.length (multiple (.finite x) (k + 1))
        -- the next batch starts a whole size on, or at the end
        have hnext : position ready.length (multiple (.finite x) (k + 1)) =
            min ((k + 1) * ⌊x.val⌋₊) ready.length := by
          rcases Nat.lt_or_ge ((k + 1) * ⌊x.val⌋₊) ready.length with h | h
          · rw [hsplit (k + 1) h, min_eq_left h.le]
          · rw [Nat.succ_mul] at h ⊢
            omega
        rw [Nat.succ_mul] at hnext
        obtain ⟨fuel, batches, hrun, hflat, hsized⟩ := ih (k + 1) (by omega)
          (by rw [Nat.succ_mul]; omega) ((hnn.multiple (k + 1)).lt_iff hn)
        rw [multiple] at hrun
        refine ⟨fuel + 1, slice ready (multiple (.finite x) k) (multiple (.finite x) (k + 1)) ::
          batches, ?_, ?_, ?_⟩
        · rw [batchLoop, if_pos (hlt.2 hpos), hrun]
          rfl
        · rw [List.flatten_cons, hflat, slice_append_drop ready (by omega)]
        · rw [List.forall_mem_cons]
          refine ⟨⟨List.ne_nil_of_length_pos ?_, ?_⟩, hsized⟩
          · rw [length_slice]
            omega
          · rw [length_slice]
            omega
      · refine ⟨1, [], ?_, ?_, by simp⟩
        · rw [batchLoop, if_neg (hlt.not.2 hpos)]
          rfl
        · rw [List.flatten_nil, List.drop_of_length_le (by omega)]

/-- A loop that returns small batches starts each of them a whole size after the one before. -/
theorem splits_of_batchLoop {x : Double} (hn : ready.length ≤ 2 ^ 53) (hx : 1 ≤ x.val)
    {fuel : ℕ} {batches : List (List PendingSettlement)}
    (hrun : batchLoop ready (.finite x) fuel (ofRat 0) = some batches)
    (hsized : ∀ b ∈ batches, b.length ≤ ⌊x.val⌋₊) (k : ℕ) (hk : k * ⌊x.val⌋₊ < ready.length) :
    position ready.length (multiple (.finite x) k) = k * ⌊x.val⌋₊ := by
  have hx0 : 0 ≤ x.val := by linarith
  have hnn : Nonneg (.finite x) := .inl ⟨x, rfl, hx0⟩
  -- the loop reaches the start of the `k`-th batch
  suffices h : position ready.length (multiple (.finite x) k) = k * ⌊x.val⌋₊ ∧
      ∃ fuel batches, batchLoop ready (.finite x) fuel (multiple (.finite x) k) = some batches ∧
        ∀ b ∈ batches, b.length ≤ ⌊x.val⌋₊ from h.1
  induction k with
  | zero =>
      refine ⟨?_, fuel, batches, hrun, hsized⟩
      obtain ⟨z, hz, hz0⟩ := ofRat_natCast (n := 0) (by norm_num)
      rw [Nat.cast_zero] at hz hz0
      rw [multiple, hz, position_finite hz0.ge, hz0]
      simp
  | succ k ih =>
      have hk' : k * ⌊x.val⌋₊ < ready.length := by
        rw [Nat.succ_mul] at hk
        omega
      obtain ⟨hpk, fuel, batches, hrun, hsized⟩ := ih hk'
      have hpos : position ready.length (multiple (.finite x) k) < ready.length := by omega
      have hmin := le_position_multiple hx0 hn hpos
      cases fuel with
      | zero => cases hrun
      | succ fuel =>
          rw [batchLoop, if_pos (((hnn.multiple k).lt_iff hn).2 hpos)] at hrun
          obtain ⟨rest, hrest, hb⟩ := Option.bind_eq_some_iff.1 hrun
          cases hb
          rw [List.forall_mem_cons, length_slice] at hsized
          refine ⟨?_, fuel, rest, hrest, hsized.2⟩
          have := hsized.1
          change position ready.length (multiple (.finite x) (k + 1)) - _ ≤ _ at this
          rw [Nat.succ_mul] at hk ⊢
          omega

/-- More fuel does not change the batches. -/
theorem batchLoop_succ {fuel : ℕ} {i : Number} {batches : List (List PendingSettlement)}
    (h : batchLoop ready size fuel i = some batches) :
    batchLoop ready size (fuel + 1) i = some batches := by
  induction fuel generalizing i batches with
  | zero => cases h
  | succ fuel ih =>
      rw [batchLoop] at h ⊢
      split at h
      · next hi =>
        obtain ⟨rest, hrest, hb⟩ := Option.bind_eq_some_iff.1 h
        rw [if_pos hi, ih hrest]
        exact hb
      · next hi => rwa [if_neg hi]

/-- The result does not depend on the fuel. -/
theorem batchLoop_unique {fuel fuel' : ℕ} {i : Number} {batches batches' : List (List PendingSettlement)}
    (h : batchLoop ready size fuel i = some batches)
    (h' : batchLoop ready size fuel' i = some batches') : batches = batches' := by
  have hmono : ∀ {fuel d b}, batchLoop ready size fuel i = some b →
      batchLoop ready size (fuel + d) i = some b := by
    intro fuel d b h
    induction d with
    | zero => exact h
    | succ d ih => exact batchLoop_succ ih
  have h1 := hmono (d := fuel') h
  have h2 := hmono (d := fuel) h'
  rw [Nat.add_comm, h1] at h2
  exact Option.some.inj h2

/-- The first batch of a nonempty list. -/
theorem batchLoop_first {fuel : ℕ} {batches : List (List PendingSettlement)}
    (hn : ready.length ≤ 2 ^ 53) (hne : 0 < ready.length)
    (h : batchLoop ready size fuel (ofRat 0) = some batches) :
    ∃ b ∈ batches, b.length = position ready.length size := by
  have hlt : (ofRat 0).lt (ofRat ready.length) = true := (nonpos_ofRat le_rfl).lt hne hn
  cases fuel with
  | zero => cases h
  | succ fuel =>
      rw [batchLoop, if_pos hlt, ofRat_zero_add] at h
      obtain ⟨rest, -, hb⟩ := Option.bind_eq_some_iff.1 h
      cases hb
      refine ⟨_, List.mem_cons_self, ?_⟩
      obtain ⟨z, hz, hz0⟩ := ofRat_natCast (n := 0) (by norm_num)
      rw [Nat.cast_zero] at hz hz0
      rw [length_slice, hz, position_finite hz0.ge, hz0]
      simp

end

/-! ## The selection -/

section
variable {pending : List PendingSettlement} {currentBlock : ℤ} {policy : BatchPolicy}

/-- Batches that make up the sorted settlements are a selection. -/
theorem selected_of_loop {batches : List (List PendingSettlement)}
    (hflat : batches.flatten = sortedReady pending currentBlock policy)
    (hsized : ∀ b ∈ batches, b ≠ [] ∧ (ofRat b.length).le policy.maxBatchSize = true) :
    Selected pending currentBlock policy batches where
  lossless := hflat ▸ sortedReady_perm pending currentBlock policy
  ordered := hflat ▸ sortedReady_ordered pending currentBlock policy
  sized := hsized

/-- A size that splits the ready list gives batches as they should be. -/
theorem selectSettlementBatches_of_splits
    (hn : (sortedReady pending currentBlock policy).length ≤ 2 ^ 53)
    (h : Splits policy.maxBatchSize (sortedReady pending currentBlock policy).length) :
    ∃ fuel batches, selectSettlementBatches fuel pending currentBlock policy = some batches ∧
      Selected pending currentBlock policy batches := by
  rcases Nat.eq_zero_or_pos (sortedReady pending currentBlock policy).length with h0 | hpos
  · refine ⟨1, [], ?_, selected_of_loop (List.length_eq_zero_iff.1 h0).symm (by simp)⟩
    have hnlt := ((nonneg_ofRat (q := 0) le_rfl).lt_iff hn).not.2 (by rw [h0]; omega)
    rw [selectSettlementBatches, batchLoop, if_neg hnlt]
    rfl
  have hlt := (nonpos_ofRat (q := 0) le_rfl).lt hpos hn
  rcases h with h0 | hinf | ⟨x, hx, hx1, hsplit⟩
  · omega
  · obtain ⟨z, hz, hz0⟩ := ofRat_natCast (n := 0) (by norm_num)
    obtain ⟨y, hy, -⟩ := ofRat_natCast hn
    rw [Nat.cast_zero] at hz hz0
    have hall : slice (sortedReady pending currentBlock policy) (ofRat 0) (.infinity false) =
        sortedReady pending currentBlock policy := by
      rw [slice, hz, position_finite hz0.ge, hz0]
      simp [position]
    refine ⟨2, [sortedReady pending currentBlock policy], ?_, selected_of_loop (by simp) ?_⟩
    · rw [selectSettlementBatches, hinf, batchLoop, if_pos hlt, ofRat_zero_add, hall, batchLoop, hy]
      rfl
    · rw [hinf, List.forall_mem_singleton, hy]
      exact ⟨List.ne_nil_of_length_pos hpos, rfl⟩
  · have hx0 : 0 ≤ x.val := by linarith
    have hpk := hsplit 0 (by simpa using hpos)
    rw [hx] at hsplit hpk
    obtain ⟨fuel, batches, hrun, hflat, hsized⟩ := batchLoop_splits hn hx1 hsplit _ 0 le_rfl
      (.inl (by simpa using hpos))
    rw [hpk, Nat.zero_mul, List.drop_zero] at hflat
    refine ⟨fuel, batches, ?_, selected_of_loop hflat fun b hb => ?_⟩
    · rw [selectSettlementBatches, hx]
      exact hrun
    · obtain ⟨h1, h2⟩ := hsized b hb
      refine ⟨h1, ?_⟩
      have hle : b.length ≤ 2 ^ 53 := by
        have hsub := (List.sublist_flatten_of_mem hb).length_le
        rw [hflat] at hsub
        omega
      rw [hx, ofRat_le_finite hx0 hle]
      exact h2

/-- **Batch selection.** It returns, and the batches are as they should be, exactly when the policy's
size splits the list of ready settlements. -/
theorem selectSettlementBatches_iff (hlen : pending.length < 2 ^ 32) :
    ((∃ fuel batches, selectSettlementBatches fuel pending currentBlock policy = some batches) ∧
      ∀ fuel batches, selectSettlementBatches fuel pending currentBlock policy = some batches →
        Selected pending currentBlock policy batches) ↔
      Splits policy.maxBatchSize (pending.filter (isReady currentBlock policy)).length := by
  have hperm := (sortedReady_perm pending currentBlock policy).length_eq
  have hn : (sortedReady pending currentBlock policy).length ≤ 2 ^ 53 := by
    have := List.length_filter_le (isReady currentBlock policy) pending
    rw [hperm]
    omega
  rw [← hperm]
  constructor
  · rintro ⟨⟨fuel, batches, hrun⟩, hsel⟩
    have hsel := hsel fuel batches hrun
    rcases Nat.eq_zero_or_pos (sortedReady pending currentBlock policy).length with h0 | hpos
    · exact .inl h0
    have hnever : ¬ Nonpos policy.maxBatchSize := fun hnp => by
      have := batchLoop_never (fun k => (hnp.multiple k).lt hpos hn) fuel 0
      rw [multiple, ← selectSettlementBatches, hrun] at this
      cases this
    obtain ⟨b, hb, hblen⟩ := batchLoop_first hn hpos hrun
    have hfirst : 0 < position (sortedReady pending currentBlock policy).length
        policy.maxBatchSize := by
      rw [← hblen]
      exact List.length_pos_of_ne_nil (hsel.sized b hb).1
    cases hm : policy.maxBatchSize with
    | nan =>
        rw [hm] at hfirst
        simp [position] at hfirst
    | infinity negative =>
        cases negative with
        | false => exact .inr (.inl rfl)
        | true => exact absurd (hm ▸ .inr rfl) hnever
    | finite x =>
        have hx0 : 0 < x.val := by
          by_contra h
          exact hnever (hm ▸ .inl ⟨x, rfl, not_lt.1 h⟩)
        rw [hm, position_finite hx0.le, lt_min_iff, Nat.floor_pos] at hfirst
        refine .inr (.inr ⟨x, rfl, hfirst.1, fun k hk => ?_⟩)
        rw [selectSettlementBatches, hm] at hrun
        refine splits_of_batchLoop hn hfirst.1 hrun (fun b hb => ?_) k hk
        have hle : b.length ≤ 2 ^ 53 := by
          have hsub := (List.sublist_flatten_of_mem hb).length_le
          have := hsel.lossless.length_eq
          omega
        have := (hsel.sized b hb).2
        rwa [hm, ofRat_le_finite hx0.le hle] at this
  · intro h
    obtain ⟨fuel, batches, hrun, hsel⟩ := selectSettlementBatches_of_splits hn h
    refine ⟨⟨fuel, batches, hrun⟩, fun fuel' batches' hrun' => ?_⟩
    rwa [← batchLoop_unique hrun hrun']

end

/-- Every positive whole number splits every list. -/
theorem splits_natCast {x : Double} {b n : ℕ} (hx : x.val = b) (hb : 0 < b) (hn : n ≤ 2 ^ 53) :
    Splits (.finite x) n := by
  have hfloor : ⌊x.val⌋₊ = b := by rw [hx, Nat.floor_natCast]
  refine .inr (.inr ⟨x, rfl, by rw [hx]; exact_mod_cast hb, fun k hk => ?_⟩)
  rw [hfloor] at hk ⊢
  have hmul : ∀ k, k * b < n → multiple (.finite x) k = ofRat ((k * b : ℕ) : ℚ) := by
    intro k hk
    induction k with
    | zero => simp [multiple]
    | succ k ih =>
        rw [Nat.succ_mul] at hk
        obtain ⟨y, hy, hyk⟩ := ofRat_natCast (n := k * b) (by omega)
        rw [multiple, ih (by omega), hy, add, hyk, hx, Nat.succ_mul, Nat.cast_add]
  obtain ⟨y, hy, hyk⟩ := ofRat_natCast (n := k * b) (by omega)
  rw [hmul k hk, hy, position_finite (by rw [hyk]; positivity), hyk, Nat.floor_natCast,
    min_eq_left hk.le]

/-! ## Three ready settlements -/

/-- A settlement of channel `n` whose channel expires at block `n`. -/
def closing (n : ℕ) : PendingSettlement :=
  ⟨n, ⟨(0, 0), ((0, 0), (0, 0)), (0, 0)⟩, ⟨0, 0, 0, 0, 0, n, 0, 0, 0, 0, 0⟩, n, 0⟩

/-- Three settlements that are ready from the start. -/
def closings : List PendingSettlement := [closing 1, closing 2, closing 3]

/-- The settlements of the run are sorted already. -/
theorem sortedReady_closings (size : Number) : sortedReady closings 10 ⟨0, 0, size⟩ = closings := by
  have hready : closings.filter (isReady 10 ⟨0, 0, size⟩) = closings := rfl
  rw [sortedReady, hready]
  exact List.mergeSort_of_pairwise (by simp [closings, closing])

/-- Batches of at most two. -/
theorem selectSettlementBatches_iff_closings :
    ∃ fuel batches, selectSettlementBatches fuel closings 10 ⟨0, 0, ofRat (2 : ℕ)⟩ = some batches ∧
      Selected closings 10 ⟨0, 0, ofRat (2 : ℕ)⟩ batches := by
  obtain ⟨x, hx, hx2⟩ := ofRat_natCast (n := 2) (by norm_num)
  have hsplits : Splits (ofRat (2 : ℕ)) (closings.filter (isReady 10 ⟨0, 0, ofRat (2 : ℕ)⟩)).length :=
    hx ▸ splits_natCast hx2 (by norm_num) ((List.length_filter_le ..).trans (by decide))
  obtain ⟨⟨fuel, batches, hrun⟩, hsel⟩ := (selectSettlementBatches_iff (by decide)).2 hsplits
  exact ⟨fuel, batches, hrun, hsel fuel batches hrun⟩

/-- With a size of zero the loop goes on for ever; `NaN` loses every settlement behind one empty batch;
and a size of one and a half gives a batch of two. -/
theorem selectSettlementBatches_loses :
    (∀ fuel, selectSettlementBatches fuel closings 10 ⟨0, 0, ofRat 0⟩ = none) ∧
      (selectSettlementBatches 2 closings 10 ⟨0, 0, .nan⟩ = some [[]] ∧
        ¬ Selected closings 10 ⟨0, 0, .nan⟩ [[]]) ∧
      ∃ batches, selectSettlementBatches 3 closings 10 ⟨0, 0, ofRat (3 / 2)⟩ = some batches ∧
        ¬ Selected closings 10 ⟨0, 0, ofRat (3 / 2)⟩ batches := by
  refine ⟨fun fuel => ?_, ⟨?_, fun h => (h.sized [] List.mem_cons_self).1 rfl⟩, ?_⟩
  · have h0 : Nonpos (ofRat 0) := nonpos_ofRat le_rfl
    rw [selectSettlementBatches, sortedReady_closings]
    exact batchLoop_never (fun k => (h0.multiple k).lt (by decide) (by decide)) fuel 0
  · rw [selectSettlementBatches, sortedReady_closings]
    decide +kernel
  · rw [selectSettlementBatches, sortedReady_closings]
    refine ⟨[[closing 1], [closing 2, closing 3]], ?_, fun h => ?_⟩
    · decide +kernel
    · have := (h.sized _ (List.mem_cons_of_mem _ List.mem_cons_self)).2
      revert this
      decide +kernel

end ShadePay.Streams
