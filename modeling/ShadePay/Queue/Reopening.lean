import ShadePay.Queue.Exclusion

/-!
# A finished job that is run again

`complete` writes the row and then inserts an event, inside the `try` whose `catch` calls `fail`. When
the second statement fails, `fail` reads a row that is ready, and with attempts left it offers the
job again.
-/

namespace ShadePay.Queue

variable {ι J : Type} [DecidableEq ι]

/-- The event of `complete` does not fail while the job has attempts left. Any other statement may
fail. -/
def keepsReady (p : Process J) (d : Db J) (a : Act J) : Bool :=
  match p, a with
  | .completed job, .error _ => d.terminal job.jobId
  | _, _ => true

/-- A requeue that touches ready jobs only leaves closed jobs closed. -/
theorem keepsReady_keepsClosed : KeepsClosed (J := J) keepsReady := by
  intro job d message hd hok j hj hid
  have hterminal : d.terminal j.jobId = true := hid ▸ hok
  rw [terminal_eq hd hj] at hterminal
  exact of_decide_eq_true hterminal

/-- **A finished job is not run again**, whatever statements fail, when none of them is the event of
a `complete` whose job has attempts left. -/
theorem ready_not_reopened {s₀ s₁ s₂ : System ι J} (h₀ : s₀.Start) {es₁ es₂ : List (ι × Act J)}
    (h₁ : Interleave.run (Interleave.restrict Process.next keepsReady) s₀ es₁ = some s₁)
    (h₂ : Interleave.run (Interleave.restrict Process.next keepsReady) s₁ es₂ = some s₂)
    {j : ServiceJob J} (hj : j ∈ s₁.shared.serviceJobs) (hready : j.status = .ready) :
    (∀ k ∈ s₂.shared.serviceJobs, k.jobId = j.jobId → k.status.claimable = false) ∧
      claims j.jobId es₂ = 0 := by
  have hclosed : j.status.closed := by
    rw [hready]
    rfl
  obtain ⟨⟨k, hk, hid, hkclosed⟩, hnone⟩ :=
    closed_of_run keepsReady_keepsClosed h₀ h₁ h₂ hj hclosed
  have hsound := (holds_of_run h₀ (Interleave.run_append.2
    ⟨s₁, Interleave.run_of_restrict h₁, Interleave.run_of_restrict h₂⟩)).shared
  refine ⟨fun k' hk' hid' => ?_, hnone⟩
  rw [hsound.eq_of_jobId hk' hk (hid'.trans hid.symm)]
  exact Status.claimable_of_closed hkclosed

/-- A withdrawal that is broadcast and completed. -/
def withdrawCompleted : List (ℕ × Act String) :=
  [(2, .call withdrawRequest), (2, .exec 0), (2, .exec 0), (2, .exec 0),
    (0, .claim 1 [] (some 0) [⟨.broadcasting, false⟩]), (0, .exec 1), (0, .exec 1),
    (0, .returns "\x7b\"status\":\"SUCCESS\"\x7d"), (0, .exec 2)]

/-- With the event written, the withdrawal stays completed while another worker's claim fails. -/
theorem ready_not_reopened_withdraw : ∃ s₁ s₂ : System ℕ String,
    run twoRelayers withdrawCompleted = some s₁ ∧
    run s₁ [(0, .exec 3), (1, .error "connection terminated")] = some s₂ ∧
    ∀ j ∈ s₁.shared.serviceJobs, j.status = .ready →
      ∀ k ∈ s₂.shared.serviceJobs, k.jobId = j.jobId → k.status.claimable = false := by
  have hrun : (Interleave.run (Interleave.restrict Process.next keepsReady) twoRelayers
      (withdrawCompleted ++ [(0, .exec 3), (1, .error "connection terminated")])).isSome := by decide
  obtain ⟨s₂, h⟩ := Option.isSome_iff_exists.1 hrun
  obtain ⟨s₁, h₁, h₂⟩ := Interleave.run_append.1 h
  exact ⟨s₁, s₂, Interleave.run_of_restrict h₁, Interleave.run_of_restrict h₂, fun j hj hready =>
    (ready_not_reopened twoRelayers_start h₁ h₂ hj hready).1⟩

/-- The event of its `complete` fails, and the other worker starts it again. -/
def withdrawReopened : List (ℕ × Act String) :=
  [(0, .error "connection terminated"), (0, .exec 3), (0, .exec 3),
    (1, .claim 13 [] (some 0) [⟨.broadcasting, false⟩])]

/-- A job written as ready, whose transaction is out, is claimed again. -/
theorem ready_reopened : ¬ ∀ s₀ s₁ s₂ : System ℕ String, s₀.Start → ∀ es₁ es₂,
    run s₀ es₁ = some s₁ → run s₁ es₂ = some s₂ →
    ∀ j ∈ s₁.shared.serviceJobs, j.status = .ready →
      (∀ k ∈ s₂.shared.serviceJobs, k.jobId = j.jobId → k.status.claimable = false) ∧
        claims j.jobId es₂ = 0 := by
  intro h
  have hready : ((run twoRelayers withdrawCompleted).map fun s =>
      s.shared.serviceJobs.map fun j => (j.jobId, j.status)) = some [(0, .ready)] := by decide
  have hrun : (run twoRelayers (withdrawCompleted ++ withdrawReopened)).isSome := by decide
  obtain ⟨s₁, h₁, hjobs⟩ := Option.map_eq_some_iff.1 hready
  obtain ⟨s₂, h₂⟩ := Option.isSome_iff_exists.1 hrun
  obtain ⟨t, ht, h₂⟩ := Interleave.run_append.1 h₂
  obtain rfl : s₁ = t := Option.some.inj (h₁.symm.trans ht)
  obtain ⟨j, hj, hrow⟩ : ∃ j ∈ s₁.shared.serviceJobs, (j.jobId, j.status) = (0, .ready) :=
    List.mem_map.1 (hjobs ▸ List.mem_cons_self)
  obtain ⟨hid, hstatus⟩ := Prod.mk.inj hrow
  have hclaims := (h _ _ _ twoRelayers_start _ _ h₁ h₂ j hj hstatus).2
  rw [hid] at hclaims
  exact absurd hclaims (by decide)

end ShadePay.Queue
