import PresenceNode.Lib.Cadence
import PresenceNode.Spec.Loop
import Mathlib.Tactic.Linarith

/-!
# The main loop does not drift

* `loopAt_nextTick`, `loopAt_sec`: what the loop's variables count.
* `step_now`: an iteration ends at its tick, or when its work is done if that is later.
* `loopAt_now`: iterations start as jobs that are due every second.
* `flushed_iff`, `flushes_eq`: every 30th iteration flushes.
* `main_cadence`: when each iteration starts, what it sleeps, and which ones flush.
-/

namespace PresenceNode

open Finset

variable (t0 : ℤ) (work : ℕ → ℕ)

/-- When iteration `k` is due. -/
def tick (k : ℕ) : ℤ := t0 + 1000 * k

theorem tick_succ (k : ℕ) : tick t0 (k + 1) = tick t0 k + 1000 := by
  unfold tick
  push_cast
  ring

/-! ## The step -/

theorem loopAt_nextTick (k : ℕ) : (loopAt t0 work k).nextTick = tick t0 (k + 1) := by
  induction k with
  | zero => simp [loopAt, MainLoop.init, tick]
  | succ k ih =>
    have hstep : (loopAt t0 work (k + 1)).nextTick = (loopAt t0 work k).nextTick + 1000 := rfl
    rw [hstep, ih, tick_succ t0 (k + 1)]

/-- A delay that the loop sleeps fits in an `int32_t`. -/
theorem int32_delay {d : ℤ} (hpos : 0 < d) (hle : d ≤ 1000) : (Int32.ofInt d).toInt = d := by
  apply Int32.toInt_ofInt_of_le
  · omega
  · omega

/-- **An iteration ends** at its tick, or when its work is done if that is later. -/
theorem step_now {s : MainLoop} {w : ℕ} (hle : s.nextTick - (s.now + w) ≤ 1000) :
    (s.step w).2.now = max (s.now + w) s.nextTick := by
  have hnow : (s.step w).2.now = s.now + w +
      ((if s.nextTick - (s.now + w) > 0 then some (Int32.ofInt (s.nextTick - (s.now + w)))
        else none).map Int32.toInt).getD 0 := rfl
  rw [hnow]
  by_cases hpos : s.nextTick - (s.now + w) > 0
  · rw [if_pos hpos, Option.map_some, Option.getD_some, int32_delay hpos hle]
    omega
  · rw [if_neg hpos, Option.map_none, Option.getD_none]
    omega

/-- **Iterations start as jobs** that are due every second. -/
theorem loopAt_now (k : ℕ) :
    (loopAt t0 work k).now = Cadence.start (tick t0) (fun i => (work i : ℤ)) k := by
  induction k with
  | zero => simp [loopAt, MainLoop.init, Cadence.start, tick]
  | succ k ih =>
    have hdue := Cadence.due_le_start (tick t0) (fun i => (work i : ℤ)) k
    have hnext := loopAt_nextTick t0 work k
    have htick := tick_succ t0 k
    have hle : (loopAt t0 work k).nextTick - ((loopAt t0 work k).now + work k) ≤ 1000 := by
      rw [hnext, ih]
      omega
    have hsucc : (loopAt t0 work (k + 1)).now = ((loopAt t0 work k).step (work k)).2.now := rfl
    rw [hsucc, step_now hle, hnext, ih]
    rfl

/-! ## Flushes -/

theorem step_sec {s : MainLoop} {w m : ℕ} (hm : m < storePeriodS) (hs : s.sec.toNat = m) :
    ((s.step w).1.flushed = true ↔ m + 1 = storePeriodS) ∧
      (s.step w).2.sec.toNat = if m + 1 = storePeriodS then 0 else m + 1 := by
  have hsucc : (s.sec + 1).toNat = m + 1 := by
    rw [UInt32.toNat_add, hs]
    have hone : (1 : UInt32).toNat = 1 := rfl
    simp only [storePeriodS] at hm
    omega
  have hge : s.sec + 1 ≥ UInt32.ofNat storePeriodS ↔ m + 1 = storePeriodS := by
    rw [ge_iff_le, UInt32.le_iff_toNat_le, hsucc]
    have hperiod : (UInt32.ofNat storePeriodS).toNat = storePeriodS := rfl
    omega
  have hflush : (s.step w).1.flushed = decide (s.sec + 1 ≥ UInt32.ofNat storePeriodS) := rfl
  have hsec : (s.step w).2.sec =
      if decide (s.sec + 1 ≥ UInt32.ofNat storePeriodS) = true then 0 else s.sec + 1 := rfl
  refine ⟨?_, ?_⟩
  · rw [hflush, decide_eq_true_iff]
    exact hge
  · rw [hsec]
    by_cases hm' : m + 1 = storePeriodS
    · rw [if_pos (decide_eq_true (hge.2 hm')), if_pos hm']
      rfl
    · rw [if_neg (fun h => hm' (hge.1 (of_decide_eq_true h))), if_neg hm']
      exact hsucc

/-- `sec` counts the iterations since the last flush. -/
theorem loopAt_sec (k : ℕ) : (loopAt t0 work k).sec.toNat = k % storePeriodS := by
  induction k with
  | zero => rfl
  | succ k ih =>
    have hlt : k % storePeriodS < storePeriodS := Nat.mod_lt _ (by decide)
    have hsec := (step_sec (w := work k) hlt ih).2
    have hsucc : (loopAt t0 work (k + 1)).sec = ((loopAt t0 work k).step (work k)).2.sec := rfl
    rw [hsucc, hsec]
    simp only [storePeriodS] at hlt ⊢
    split_ifs with h
    · omega
    · omega

/-- **Every 30th iteration flushes.** -/
theorem flushed_iff (k : ℕ) :
    (iteration t0 work k).flushed = true ↔ ∃ n ≥ 1, k = storePeriodS * n - 1 := by
  have hlt : k % storePeriodS < storePeriodS := Nat.mod_lt _ (by decide)
  have hstep := (step_sec (w := work k) hlt (loopAt_sec t0 work k)).1
  have hdef : (iteration t0 work k).flushed = ((loopAt t0 work k).step (work k)).1.flushed := rfl
  rw [hdef, hstep]
  simp only [storePeriodS] at hlt ⊢
  constructor
  · intro h
    exact ⟨k / 30 + 1, by omega, by omega⟩
  · rintro ⟨n, hn, rfl⟩
    omega

theorem flushes_eq (k : ℕ) : flushes t0 work k = k / storePeriodS := by
  induction k with
  | zero => rfl
  | succ k ih =>
    have hcount : flushes t0 work (k + 1) =
        flushes t0 work k + if (iteration t0 work k).flushed = true then 1 else 0 := by
      unfold flushes
      rw [List.range_succ, List.countP_append, List.countP_singleton]
    rw [hcount, ih]
    by_cases hf : (iteration t0 work k).flushed = true
    · rw [if_pos hf]
      obtain ⟨n, hn, rfl⟩ := (flushed_iff t0 work k).1 hf
      simp only [storePeriodS]
      omega
    · rw [if_neg hf]
      have hmod : ¬ (k + 1) % 30 = 0 := by
        intro hmod
        exact hf ((flushed_iff t0 work k).2 ⟨k / 30 + 1, by omega, by simp only [storePeriodS]; omega⟩)
      simp only [storePeriodS]
      omega

/-! ## The cadence -/

/-- How late iteration `k` starts. -/
def lateness (k : ℕ) : ℤ := (iteration t0 work k).start - tick t0 k

/-- **What iteration `k` does**, whatever the durations before it. -/
structure OnCadence (k : ℕ) : Prop where
  /-- The closed form of its start. -/
  start : IsGreatest {t | ∃ j ≤ k, t = tick t0 j + ∑ i ∈ Ico j k, (work i : ℤ)}
    (iteration t0 work k).start
  notEarly : tick t0 k ≤ (iteration t0 work k).start
  /-- It is on time exactly when every overrun before it has been absorbed. -/
  onTime : (iteration t0 work k).start = tick t0 k ↔
    ∀ j < k, ∑ i ∈ Ico j k, (work i : ℤ) ≤ 1000 * ((k : ℤ) - j)
  /-- It is as late as some run of iterations overran. -/
  late : ∃ j ≤ k, lateness t0 work k = ∑ i ∈ Ico j k, ((work i : ℤ) - 1000)
  /-- It sleeps the delay it computed. -/
  slept : ∀ ms ∈ (iteration t0 work k).slept,
    ms.toInt = (iteration t0 work k).delay ∧ 1 ≤ ms.toInt ∧ ms.toInt ≤ 1000
  /-- The `n`-th window is flushed in iteration `30 n - 1`. -/
  flushed : (iteration t0 work k).flushed = true ↔ ∃ n ≥ 1, k = storePeriodS * n - 1
  count : flushes t0 work k = k / storePeriodS
  /-- The number of windows tracks the time since the loop began. -/
  elapsed : 1000 * (storePeriodS * flushes t0 work k : ℕ) ≤ (iteration t0 work k).start - t0 ∧
    (iteration t0 work k).start - t0 <
      1000 * (storePeriodS * (flushes t0 work k + 1) : ℕ) + lateness t0 work k

theorem iteration_start (k : ℕ) :
    (iteration t0 work k).start = Cadence.start (tick t0) (fun i => (work i : ℤ)) k :=
  loopAt_now t0 work k

theorem iteration_delay (k : ℕ) :
    (iteration t0 work k).delay = tick t0 (k + 1) - ((iteration t0 work k).start + work k) := by
  rw [← loopAt_nextTick t0 work k]
  rfl

/-- The run of iterations from `j` fits before the due time of iteration `k`. -/
theorem run_fits_iff {j k : ℕ} : tick t0 j + ∑ i ∈ Ico j k, (work i : ℤ) ≤ tick t0 k ↔
    ∑ i ∈ Ico j k, (work i : ℤ) ≤ 1000 * ((k : ℤ) - j) := by
  unfold tick
  constructor
  · intro h
    linarith
  · intro h
    linarith

theorem iteration_late (k : ℕ) :
    ∃ j ≤ k, lateness t0 work k = ∑ i ∈ Ico j k, ((work i : ℤ) - 1000) := by
  obtain ⟨j, hj, hlate⟩ := Cadence.exists_backlog (tick t0) (fun i => (work i : ℤ)) k
  refine ⟨j, hj, ?_⟩
  unfold lateness
  rw [iteration_start, hlate]
  apply sum_congr rfl
  intro i _
  have htick := tick_succ t0 i
  linarith

theorem iteration_slept (k : ℕ) {ms : Int32} (h : ms ∈ (iteration t0 work k).slept) :
    ms.toInt = (iteration t0 work k).delay ∧ 1 ≤ ms.toInt ∧ ms.toInt ≤ 1000 := by
  have hdue := Cadence.due_le_start (tick t0) (fun i => (work i : ℤ)) k
  rw [← iteration_start] at hdue
  have hdelay := iteration_delay t0 work k
  have htick := tick_succ t0 k
  have hslept : (iteration t0 work k).slept = if (iteration t0 work k).delay > 0
      then some (Int32.ofInt (iteration t0 work k).delay) else none := rfl
  rw [hslept] at h
  split_ifs at h with hpos
  · have hle : (iteration t0 work k).delay ≤ 1000 := by omega
    have hexact := int32_delay hpos hle
    simp only [Option.mem_some_iff] at h
    rw [← h, hexact]
    omega
  · simp at h

/-- **The cadence does not drift**, whatever the durations. -/
theorem main_cadence (k : ℕ) : OnCadence t0 work k := by
  have hstart := iteration_start t0 work k
  have hearly : tick t0 k ≤ (iteration t0 work k).start := by
    rw [hstart]
    exact Cadence.due_le_start _ _ k
  refine ⟨?_, hearly, ?_, iteration_late t0 work k, fun ms hms => iteration_slept t0 work k hms,
    flushed_iff t0 work k, flushes_eq t0 work k, ?_⟩
  · rw [hstart]
    exact Cadence.start_isGreatest _ _ k
  · rw [hstart, Cadence.start_eq_due_iff]
    exact forall₂_congr fun j _ => run_fits_iff t0 work
  · rw [flushes_eq]
    unfold lateness
    unfold tick at hearly ⊢
    simp only [storePeriodS]
    omega

end PresenceNode
