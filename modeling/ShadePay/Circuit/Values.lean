import ShadePay.Circuit.Templates

/-!
# Value constraints over the integers

The templates constrain amounts by equations in the field and by 128-bit range checks. Since the
field is wider than any sum of two such amounts, each equation holds of the canonical
representatives; `val_of_ranges` is the step and the rest are its instances.
-/

namespace ShadePay

section
variable {p : ℕ} [Fact p.Prime] [WideModulus p] {P : List (ZMod p) → ZMod p} {d k : ℕ}

/-- A difference and a subtrahend in range add up over the integers. -/
theorem val_of_ranges {a b : ZMod p} (hb : InRange 128 b) (hd : InRange 128 (a - b)) :
    a.val = b.val + (a - b).val ∧ b.val < 2 ^ 128 ∧ (a - b).val < 2 ^ 128 := by
  have h1 := (inRange_iff (by norm_num) _).1 hb
  have h2 := (inRange_iff (by norm_num) _).1 hd
  have hp : 2 ^ 253 < p := WideModulus.wide
  exact ⟨Bits.val_eq_add_of_sub rfl (by omega), h1, h2⟩

/-- `Withdraw`: the fee is within the withdrawn value, and that within the note. -/
theorem Withdraw.values {x : WithdrawPub (ZMod p)} {w : WithdrawWit (ZMod p)}
    (h : Withdraw P d k x w) :
    x.relayerFee.val ≤ x.withdrawnValue.val ∧ x.withdrawnValue.val ≤ w.value.val ∧
      x.withdrawnValue.val < 2 ^ 128 := by
  have h1 := val_of_ranges h.relayerFee h.netOutput
  have h2 := val_of_ranges h.withdrawnValue h.remainingValue
  omega

/-- `PrivateTransfer`: the input is the output and the fee. -/
theorem PrivateTransfer.values {x : TransferPub (ZMod p)} {w : TransferWit (ZMod p)}
    (h : PrivateTransfer P d k x w) :
    w.inValue.val = w.outValue.val + x.feePublic.val ∧ w.outValue.val < 2 ^ 128 ∧
      x.feePublic.val < 2 ^ 128 := by
  have hsub : w.inValue - x.feePublic = w.outValue := by
    rw [h.conservation]
    ring
  have h1 := val_of_ranges h.feeRange (hsub ▸ h.outRange)
  rw [hsub] at h1
  omega

/-- `DepositNoteMint`: the value is within the 7dp amount, by less than `2 ^ 128`. -/
theorem DepositNoteMint.values {x : DepositPub (ZMod p)} {w : DepositWit (ZMod p)}
    (h : DepositNoteMint P x w) :
    w.value.val ≤ x.amount7dp.val ∧ x.amount7dp.val < w.value.val + 2 ^ 128 ∧
      w.value.val < 2 ^ 128 := by
  have := val_of_ranges h.value h.surplus
  omega

/-- `StreamOpen`: the input is the cap and the change. -/
theorem StreamOpen.values {x : StreamOpenPub (ZMod p)} {w : StreamOpenWit (ZMod p)}
    (h : StreamOpen P d k x w) :
    w.inValue.val = x.cap.val + (w.inValue - x.cap).val ∧ x.cap.val < 2 ^ 128 := by
  have := val_of_ranges h.capRange h.changeRange
  omega

/-- `StreamSettle`: the cap is the cumulative amount and the refund. -/
theorem StreamSettle.values {eddsa : ZMod p → ZMod p → ZMod p → Signature (ZMod p) → Prop}
    {x : StreamSettlePub (ZMod p)} {w : StreamSettleWit (ZMod p)} (h : StreamSettle P eddsa x w) :
    x.cap.val = x.cumulative.val + (x.cap - x.cumulative).val ∧ x.cumulative.val < 2 ^ 128 := by
  have := val_of_ranges h.cumulativeRange h.refundRange
  omega

/-- `StreamOpen`: the change note and the reclaim note, over the integers. -/
theorem StreamOpen.notes {x : StreamOpenPub (ZMod p)} {w : StreamOpenWit (ZMod p)}
    (h : StreamOpen P d k x w) :
    x.cap.val ≤ w.inValue.val ∧
      x.changeCommitment = (w.changeNote x).commitment P ∧
      (w.changeNote x).value.val = w.inValue.val - x.cap.val ∧
      x.reclaimCommitment = (w.reclaimNote x).commitment P ∧
      (w.reclaimNote x).value.val = x.cap.val := by
  obtain ⟨hval, -⟩ := h.values
  have hchange : (w.changeNote x).value.val = (w.inValue - x.cap).val := rfl
  exact ⟨by omega, h.change, by omega, h.reclaim, rfl⟩

/-- `StreamSettle`: the payee's note and the refund, over the integers. -/
theorem StreamSettle.notes {eddsa : ZMod p → ZMod p → ZMod p → Signature (ZMod p) → Prop}
    {x : StreamSettlePub (ZMod p)} {w : StreamSettleWit (ZMod p)} (h : StreamSettle P eddsa x w) :
    x.cumulative.val ≤ x.cap.val ∧
      x.payeeCommitment = (w.payeeNote x).commitment P ∧
      (w.payeeNote x).value.val = x.cumulative.val ∧
      x.refundCommitment = (w.refundNote x).commitment P ∧
      (w.refundNote x).value.val = x.cap.val - x.cumulative.val := by
  obtain ⟨hval, -⟩ := h.values
  have hrefund : (w.refundNote x).value.val = (x.cap - x.cumulative).val := rfl
  exact ⟨by omega, h.payee, rfl, h.refund, by omega⟩

end

/-- **The value constraints of the BN254 circuits hold over the integers**, and a channel returns exactly
what was put into it, whether it is settled or reclaimed. -/
theorem bn254_values (P : List Bn254 → Bn254) (d k : ℕ)
    (eddsa : Bn254 → Bn254 → Bn254 → Signature Bn254 → Prop) :
    (∀ x w, Withdraw P d k x w → x.relayerFee.val ≤ x.withdrawnValue.val ∧
      x.withdrawnValue.val ≤ w.value.val ∧ x.withdrawnValue.val < 2 ^ 128) ∧
    (∀ x w, PrivateTransfer P d k x w → w.inValue.val = w.outValue.val + x.feePublic.val ∧
      w.outValue.val < 2 ^ 128 ∧ x.feePublic.val < 2 ^ 128) ∧
    (∀ x w, DepositNoteMint P x w → w.value.val ≤ x.amount7dp.val ∧ w.value.val < 2 ^ 128) ∧
    (∀ x w, StreamOpen P d k x w → x.cap.val ≤ w.inValue.val ∧
      x.changeCommitment = (w.changeNote x).commitment P ∧
      (w.changeNote x).value.val = w.inValue.val - x.cap.val ∧
      x.reclaimCommitment = (w.reclaimNote x).commitment P ∧
      (w.reclaimNote x).value.val = x.cap.val) ∧
    (∀ x w, StreamSettle P eddsa x w → x.cumulative.val ≤ x.cap.val ∧
      x.payeeCommitment = (w.payeeNote x).commitment P ∧
      (w.payeeNote x).value.val = x.cumulative.val ∧
      x.refundCommitment = (w.refundNote x).commitment P ∧
      (w.refundNote x).value.val = x.cap.val - x.cumulative.val) ∧
    ∀ x w, StreamOpen P d k x w →
      (∀ y v, StreamSettle P eddsa y v → y.cap = x.cap →
        (w.changeNote x).value.val + (v.payeeNote y).value.val + (v.refundNote y).value.val =
          w.inValue.val) ∧
      (w.changeNote x).value.val + (w.reclaimNote x).value.val = w.inValue.val := by
  refine ⟨fun x w h => h.values, fun x w h => h.values, fun x w h => ?_, fun x w h => h.notes,
    fun x w h => h.notes, fun x w h => ?_⟩
  · obtain ⟨h1, -, h3⟩ := h.values
    exact ⟨h1, h3⟩
  · obtain ⟨hcap, -, hchange, -, hreclaim⟩ := h.notes
    refine ⟨fun y v hy hsame => ?_, by omega⟩
    obtain ⟨hcum, -, hpayee, -, hrefund⟩ := hy.notes
    rw [hsame] at hcum hrefund
    omega

end ShadePay
