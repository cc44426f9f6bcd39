import PresenceNode.Lib.Machine
import Mathlib.Data.List.Pairwise
import Mathlib.Tactic.Linarith
import Mathlib.Tactic.Ring

/-!
# A clock that is resumed

A clock counts whole units while it runs. When it is started again it goes on from the count it
saved last, and does not know how long ago that was. Beside the counts the model keeps the true
time, and how much of it the clock has missed.

* `Reading.phase`, `phase`: how far a count is ahead of the time it should have counted.
* `Near`: the phase of an earlier reading, seen from a clock that went on from it.
* `near_reading`, `near_start`, `near_take`: a reading is near its own clock, and stays near.
* `run_running`: any two readings of a run agree on the time between them, less what was missed, up
  to one unit, and one more for each start between them; and so each of them with the beginning.
-/

/-- **A reading**: the count, the true time, how often the clock had been started, and the time it
had missed before the last start. -/
structure Resumed.Reading where
  value : ℕ
  time : ℕ
  starts : ℕ
  lost : ℕ
  deriving DecidableEq, Repr

/-- **A resumed clock**: the count it started from and when that was, its starts, the time missed
before the last of them, the reading saved last, and the readings taken, latest first, each with
what it was taken for. -/
structure Resumed (τ : Type) where
  now : ℕ
  base : ℕ
  started : ℕ
  starts : ℕ
  lost : ℕ
  saved : Resumed.Reading
  taken : List (Resumed.Reading × τ)

/-- What happens to the clock, and when. -/
inductive ClockEvent (τ : Type) where
  | start (now : ℕ)
  /-- A reading is taken, and saved or not. -/
  | take (now : ℕ) (tag : τ) (save : Bool)
  | pass (now : ℕ)

/-- How far a reading is ahead of the time it should have counted. -/
def Resumed.Reading.phase (unit : ℕ) (r : Resumed.Reading) : ℤ := unit * r.value + r.lost - r.time

/-- **Two readings agree**: the later one is not ahead, and behind by less than a unit, and one more
for each start between them. -/
structure Resumed.Reading.Drifts (unit : ℕ) (later earlier : Resumed.Reading) : Prop where
  time : earlier.time ≤ later.time
  starts : earlier.starts ≤ later.starts
  lost : later.starts = earlier.starts → later.lost = earlier.lost
  ahead : later.phase unit ≤ earlier.phase unit + (unit - 1)
  behind : earlier.phase unit ≤
    later.phase unit + (unit - 1) * (1 + (later.starts - earlier.starts : ℤ))

namespace Resumed

variable {τ : Type} (unit : ℕ)

/-- A clock whose count was last saved at `now`. -/
def fresh (value now : ℕ) : Resumed τ := ⟨now, value, now, 0, 0, ⟨value, now, 0, 0⟩, []⟩

/-- What the clock says. -/
def reading (c : Resumed τ) (now : ℕ) : Reading :=
  ⟨c.base + (now - c.started) / unit, now, c.starts, c.lost⟩

def step (c : Resumed τ) : ClockEvent τ → Resumed τ
  | .start now =>
    { c with
      now := now
      base := c.saved.value
      started := now
      starts := c.starts + 1
      lost := c.saved.lost + (now - c.saved.time) }
  | .take now tag save =>
    { c with
      now := now
      saved := if save then c.reading unit now else c.saved
      taken := (c.reading unit now, tag) :: c.taken }
  | .pass now => { c with now := now }

/-- A clock of the given unit. -/
def machine (τ : Type) (unit : ℕ) : Machine (Resumed τ) (ClockEvent τ) := ⟨step unit⟩

/-- Time does not go back. -/
def Forward (c : Resumed τ) : ClockEvent τ → Prop
  | .start now | .take now _ _ | .pass now => c.now ≤ now

/-- How far the running clock is ahead, apart from the unit it is in. -/
def phase (c : Resumed τ) : ℤ := unit * c.base + c.lost - c.started

variable {unit} {c : Resumed τ}

/-- **A reading is behind its clock**, by less than a unit. -/
theorem phase_reading (hu : 0 < unit) {now : ℕ} (h : c.started ≤ now) :
    (c.reading unit now).phase unit ≤ c.phase unit ∧
      c.phase unit ≤ (c.reading unit now).phase unit + (unit - 1) := by
  have hdiv : unit * ((now - c.started) / unit) + (now - c.started) % unit = now - c.started :=
    Nat.div_add_mod ..
  have hmod : (now - c.started) % unit < unit := Nat.mod_lt _ hu
  zify [h] at hdiv hmod
  -- the remainder of the running unit is what the reading leaves out
  unfold reading Reading.phase phase
  push_cast [Nat.cast_sub h]
  rw [mul_add]
  constructor
  · have hpos : (0 : ℤ) ≤ ((now : ℤ) - c.started) % unit :=
      Int.emod_nonneg _ (by exact_mod_cast hu.ne')
    linarith
  · linarith

/-- **The phase `x` of a reading**, taken when the clock had been started `k` times, seen from the
clock later: it is passed by at most `slack`, and missed by less than a unit for each start. -/
structure Near (unit : ℕ) (c : Resumed τ) (x : ℤ) (k : ℕ) (slack : ℤ) : Prop where
  phase_le : c.phase unit ≤ x + slack
  saved_le : c.saved.phase unit ≤ x + slack
  le_phase : x ≤ c.phase unit + (unit - 1) * ((c.starts : ℤ) - k)
  le_saved : x ≤ c.saved.phase unit + (unit - 1) * ((c.starts : ℤ) + 1 - k)

/-- **The books of a clock.** -/
structure Kept (unit : ℕ) (c : Resumed τ) : Prop where
  started : c.started ≤ c.now
  saved : c.saved.time ≤ c.now
  saved_le : c.saved.phase unit ≤ c.phase unit
  le_saved : c.phase unit ≤ c.saved.phase unit + (unit - 1)

theorem fresh_kept (hu : 0 < unit) (value now : ℕ) : (fresh value now : Resumed τ).Kept unit := by
  refine ⟨le_rfl, le_rfl, le_rfl, ?_⟩
  have hpos : (0 : ℤ) ≤ unit - 1 := by omega
  show Reading.phase unit ⟨value, now, 0, 0⟩ ≤ Reading.phase unit ⟨value, now, 0, 0⟩ + (unit - 1)
  linarith

/-- After a start the clock is where its saved count is. -/
theorem phase_start (unit : ℕ) {c : Resumed τ} {now : ℕ} (h : c.saved.time ≤ now) :
    (c.step unit (.start now)).phase unit = c.saved.phase unit := by
  simp only [step, phase, Reading.phase]
  push_cast [Nat.cast_sub h]
  ring

theorem step_kept (hu : 0 < unit) (h : c.Kept unit) {e : ClockEvent τ} (hf : c.Forward e) :
    (c.step unit e).Kept unit := by
  have hpos : (0 : ℤ) ≤ unit - 1 := by omega
  cases e with
  | start now =>
    -- base and saved count are the same
    have hp := phase_start unit (h.saved.trans hf)
    refine ⟨le_rfl, h.saved.trans hf, hp.ge, ?_⟩
    rw [hp]
    show c.saved.phase unit ≤ c.saved.phase unit + (unit - 1)
    linarith
  | take now tag save =>
    obtain ⟨hle, hge⟩ := phase_reading hu (h.started.trans hf)
    cases save with
    -- the count saved is the reading, which is behind the clock
    | true => exact ⟨h.started.trans hf, le_rfl, hle, hge⟩
    | false => exact ⟨h.started.trans hf, h.saved.trans hf, h.saved_le, h.le_saved⟩
  | pass now => exact ⟨h.started.trans hf, h.saved.trans hf, h.saved_le, h.le_saved⟩

/-- **A reading is near its own clock.** -/
theorem near_reading (hu : 0 < unit) (h : c.Kept unit) {now : ℕ} (hf : c.now ≤ now) :
    c.Near unit ((c.reading unit now).phase unit) c.starts (unit - 1) := by
  obtain ⟨hle, hge⟩ := phase_reading hu (h.started.trans hf)
  have hsaved := h.le_saved
  refine ⟨hge, h.saved_le.trans hge, ?_, ?_⟩
  -- no start since
  · rw [sub_self, mul_zero, add_zero]
    exact hle
  · rw [show (c.starts : ℤ) + 1 - c.starts = 1 by ring, mul_one]
    linarith

variable {x slack : ℤ} {k : ℕ}

/-- A start takes the clock back to what was saved. -/
theorem near_start (hn : c.Near unit x k slack) {now : ℕ} (hf : c.saved.time ≤ now)
    (hpos : (0 : ℤ) ≤ unit - 1) : (c.step unit (.start now)).Near unit x k slack := by
  have hp := phase_start unit hf
  have hlow := hn.le_saved
  have hcast : ((c.starts + 1 : ℕ) : ℤ) = (c.starts : ℤ) + 1 := by push_cast; rfl
  refine ⟨?_, hn.saved_le, ?_, ?_⟩
  · rw [hp]
    exact hn.saved_le
  · rw [hp]
    show x ≤ c.saved.phase unit + (unit - 1) * (((c.starts + 1 : ℕ) : ℤ) - k)
    rw [hcast]
    exact hlow
  · show x ≤ c.saved.phase unit + (unit - 1) * (((c.starts + 1 : ℕ) : ℤ) + 1 - k)
    rw [hcast]
    linarith

/-- A reading that is saved takes the saved count less than a unit behind the clock. -/
theorem near_take (hu : 0 < unit) (h : c.Kept unit) (hn : c.Near unit x k slack) {now : ℕ}
    (hf : c.now ≤ now) (tag : τ) (save : Bool) :
    (c.step unit (.take now tag save)).Near unit x k slack := by
  cases save with
  | false => exact ⟨hn.phase_le, hn.saved_le, hn.le_phase, hn.le_saved⟩
  | true =>
    obtain ⟨hle, hge⟩ := phase_reading hu (h.started.trans hf)
    have hhigh := hn.phase_le
    have hlow := hn.le_phase
    refine ⟨hn.phase_le, ?_, hn.le_phase, ?_⟩
    · show (c.reading unit now).phase unit ≤ x + slack
      linarith
    · show x ≤ (c.reading unit now).phase unit + (unit - 1) * ((c.starts : ℤ) + 1 - k)
      linarith

theorem step_near (hu : 0 < unit) (h : c.Kept unit) (hn : c.Near unit x k slack)
    {e : ClockEvent τ} (hf : c.Forward e) : (c.step unit e).Near unit x k slack := by
  cases e with
  | start now => exact near_start hn (h.saved.trans hf) (by omega)
  | take now tag save => exact near_take hu h hn hf tag save
  | pass now => exact ⟨hn.phase_le, hn.saved_le, hn.le_phase, hn.le_saved⟩

/-! ## The readings of a run -/

/-- **What is known of an earlier reading.** -/
structure Past (unit : ℕ) (c : Resumed τ) (r : Reading) : Prop where
  time : r.time ≤ c.now
  starts : r.starts ≤ c.starts
  lost : c.starts = r.starts → c.lost = r.lost
  near : c.Near unit (r.phase unit) r.starts (unit - 1)

theorem step_past (hu : 0 < unit) (h : c.Kept unit) {r : Reading} (hr : c.Past unit r)
    {e : ClockEvent τ} (hf : c.Forward e) : (c.step unit e).Past unit r := by
  have hnear := step_near hu h hr.near hf
  have hstarts := hr.starts
  cases e with
  | start now =>
    -- one more start than any reading before it
    refine ⟨hr.time.trans hf, Nat.le_succ_of_le hstarts, ?_, hnear⟩
    intro heq
    simp only [step] at heq
    omega
  | take now tag save => exact ⟨hr.time.trans hf, hstarts, hr.lost, hnear⟩
  | pass now => exact ⟨hr.time.trans hf, hstarts, hr.lost, hnear⟩

/-- **A reading agrees with every earlier one.** -/
theorem reading_drifts (hu : 0 < unit) (h : c.Kept unit) {r : Reading} (hr : c.Past unit r)
    {now : ℕ} (hf : c.now ≤ now) : Reading.Drifts unit (c.reading unit now) r := by
  obtain ⟨hle, hge⟩ := phase_reading hu (h.started.trans hf)
  have hhigh := hr.near.phase_le
  have hlow := hr.near.le_phase
  refine ⟨hr.time.trans hf, hr.starts, hr.lost, hle.trans hhigh, ?_⟩
  show r.phase unit ≤
    (c.reading unit now).phase unit + (unit - 1) * (1 + ((c.starts : ℤ) - r.starts))
  rw [mul_add, mul_one]
  linarith

/-- **The readings of a clock**: each is in its past, any two agree, and where it began is near. -/
structure Running (unit : ℕ) (origin : Reading) (c : Resumed τ) : Prop where
  kept : c.Kept unit
  past : ∀ p ∈ c.taken, c.Past unit p.1
  drifts : c.taken.Pairwise fun p q => Reading.Drifts unit p.1 q.1
  near : c.Near unit (origin.phase unit) origin.starts 0
  /-- Each reading is near where the clock began. -/
  behind : ∀ p ∈ c.taken, p.1.phase unit ≤ origin.phase unit ∧
    origin.phase unit ≤ p.1.phase unit + (unit - 1) * (1 + ((p.1.starts : ℤ) - origin.starts))

theorem fresh_running (hu : 0 < unit) (value now : ℕ) :
    (fresh value now : Resumed τ).Running unit ⟨value, now, 0, 0⟩ where
  kept := fresh_kept hu value now
  past p hp := by simp [fresh] at hp
  drifts := .nil
  near := by
    have hpos : (0 : ℤ) ≤ unit - 1 := by omega
    refine ⟨le_of_eq ?_, le_of_eq ?_, le_of_eq ?_, ?_⟩
    · exact (add_zero _).symm
    · exact (add_zero _).symm
    · show Reading.phase unit ⟨value, now, 0, 0⟩ = Reading.phase unit ⟨value, now, 0, 0⟩ +
        (unit - 1) * (((0 : ℕ) : ℤ) - (0 : ℕ))
      ring
    · show Reading.phase unit ⟨value, now, 0, 0⟩ ≤ Reading.phase unit ⟨value, now, 0, 0⟩ +
        (unit - 1) * (((0 : ℕ) : ℤ) + 1 - (0 : ℕ))
      push_cast
      linarith
  behind p hp := by simp [fresh] at hp

theorem step_running (hu : 0 < unit) {origin : Reading} (h : c.Running unit origin)
    {e : ClockEvent τ} (hf : c.Forward e) : (c.step unit e).Running unit origin := by
  have hkept := step_kept hu h.kept hf
  have hpast : ∀ p ∈ c.taken, (c.step unit e).Past unit p.1 :=
    fun p hp => step_past hu h.kept (h.past p hp) hf
  have hnear := step_near hu h.kept h.near hf
  cases e with
  | start now => exact ⟨hkept, hpast, h.drifts, hnear, h.behind⟩
  | pass now => exact ⟨hkept, hpast, h.drifts, hnear, h.behind⟩
  | take now tag save =>
    refine ⟨hkept, ?_, ?_, hnear, ?_⟩
    · intro p hp
      rcases List.mem_cons.1 hp with rfl | hp
      -- the new reading is near its own clock, which it then may have saved
      · have hown := near_take hu h.kept (near_reading hu h.kept hf) hf tag save
        exact ⟨le_rfl, le_rfl, fun _ => rfl, hown⟩
      · exact hpast p hp
    · exact .cons (fun q hq => reading_drifts hu h.kept (h.past q hq) hf) h.drifts
    · intro p hp
      rcases List.mem_cons.1 hp with rfl | hp
      · obtain ⟨hle, hge⟩ := phase_reading hu (h.kept.started.trans hf)
        have hhigh := h.near.phase_le
        have hlow := h.near.le_phase
        refine ⟨by linarith, ?_⟩
        show origin.phase unit ≤ (c.reading unit now).phase unit +
          (unit - 1) * (1 + ((c.starts : ℤ) - origin.starts))
        rw [mul_add, mul_one]
        linarith
      · exact h.behind p hp

theorem run_running (hu : 0 < unit) {origin : Reading} (h : c.Running unit origin)
    {evs : List (ClockEvent τ)} (hf : (machine τ unit).Guarded Forward c evs) :
    ((machine τ unit).run c evs).Running unit origin := by
  refine Machine.run_invariant ?_ h hf
  intro c e hc hforward
  exact step_running hu hc hforward

end Resumed
