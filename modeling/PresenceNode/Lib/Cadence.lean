import Mathlib.Algebra.BigOperators.Intervals
import Mathlib.Algebra.Order.BigOperators.Group.Finset
import Mathlib.Order.Bounds.Basic
import Mathlib.Tactic.Abel

/-!
# Jobs with due times, one at a time

Job `k` is due at `due k`, takes `dur k`, and starts once it is due and the job before it is
done. Durations are arbitrary, so a job may start late; what is left of that is the largest
backlog that any run of jobs up to it has built up.

* `start`: when each job starts.
* `start_isGreatest`: the closed form, over all runs of jobs that end before it.
* `start_eq_due_iff`: a job starts on time exactly when no such run takes too long.
* `exists_backlog`: a job is as late as some run of jobs took longer than it had.
-/

namespace Cadence

open Finset

variable {α : Type*} [AddCommGroup α]

/-- A run of jobs, and the next one. -/
theorem run_succ (due dur : ℕ → α) {j k : ℕ} (hj : j ≤ k) :
    due j + ∑ i ∈ Ico j (k + 1), dur i = due j + ∑ i ∈ Ico j k, dur i + dur k := by
  rw [sum_Ico_succ_top hj, add_assoc]

variable [LinearOrder α]

/-- **When each job starts.** -/
def start (due dur : ℕ → α) : ℕ → α
  | 0 => due 0
  | k + 1 => max (start due dur k + dur k) (due (k + 1))

variable (due dur : ℕ → α)

theorem due_le_start (k : ℕ) : due k ≤ start due dur k := by
  cases k with
  | zero => exact le_rfl
  | succ k => exact le_max_right _ _

variable [IsOrderedAddMonoid α]

/-- **The closed form**: the latest time at which a run of jobs that began on time is done. -/
theorem start_isGreatest (k : ℕ) :
    IsGreatest {t | ∃ j ≤ k, t = due j + ∑ i ∈ Ico j k, dur i} (start due dur k) := by
  induction k with
  | zero =>
    refine ⟨⟨0, le_rfl, by simp [start]⟩, ?_⟩
    rintro t ⟨j, hj, rfl⟩
    rw [Nat.le_zero.1 hj]
    simp [start]
  | succ k ih =>
    obtain ⟨⟨j, hj, hstart⟩, hle⟩ := ih
    refine ⟨?_, ?_⟩
    · rcases max_choice (start due dur k + dur k) (due (k + 1)) with hmax | hmax
      · refine ⟨j, by omega, ?_⟩
        rw [run_succ due dur hj, start, hmax, hstart]
      · refine ⟨k + 1, le_rfl, ?_⟩
        rw [start, hmax]
        simp
    · rintro t ⟨i, hi, rfl⟩
      rcases Nat.eq_or_lt_of_le hi with rfl | hlt
      · simpa using due_le_start due dur (k + 1)
      · have hik : i ≤ k := by omega
        have hrun : due i + ∑ n ∈ Ico i k, dur n ≤ start due dur k := hle ⟨i, hik, rfl⟩
        rw [run_succ due dur hik]
        exact (add_le_add_left hrun (dur k)).trans (le_max_left _ _)

/-- **A job starts on time** exactly when every run of jobs before it fits before its due
time. -/
theorem start_eq_due_iff (k : ℕ) :
    start due dur k = due k ↔ ∀ j < k, due j + ∑ i ∈ Ico j k, dur i ≤ due k := by
  obtain ⟨⟨j, hj, hstart⟩, hle⟩ := start_isGreatest due dur k
  constructor
  · intro h i hi
    rw [← h]
    exact hle ⟨i, hi.le, rfl⟩
  · intro h
    apply le_antisymm ?_ (due_le_start due dur k)
    rcases Nat.eq_or_lt_of_le hj with rfl | hlt
    · rw [hstart]
      simp
    · rw [hstart]
      exact h j hlt

/-- **Lateness is a backlog**: some run of jobs took that much longer than the time it had. -/
theorem exists_backlog (k : ℕ) :
    ∃ j ≤ k, start due dur k - due k = ∑ i ∈ Ico j k, (dur i - (due (i + 1) - due i)) := by
  obtain ⟨⟨j, hj, hstart⟩, -⟩ := start_isGreatest due dur k
  refine ⟨j, hj, ?_⟩
  have htel : ∑ i ∈ Ico j k, (due (i + 1) - due i) = due k - due j := by
    rw [sum_Ico_eq_sub _ hj, sum_range_sub, sum_range_sub]
    abel
  rw [sum_sub_distrib, htel, hstart]
  abel

end Cadence
