import PresenceNode.Spec.Store

/-!
# The radar accumulators (`radar.c`, `radar.h`)

`onFrame` is the locked section of `on_frame`, on what the frame was decided to say;
`radarWindowTake` hands the window over and clears it. Both hold `acc_lock`, so a history
is a sequence of whole calls. Histories are kept latest first.
-/

namespace PresenceNode

abbrev radarMaxTargets : ℕ := 20

/-- **What a frame says**: the count, and whether it came from the tracker. The target list
is decoded into an array of `RADAR_MAX_TARGETS`, and presence zones count as one. -/
structure Decided where
  n : ℕ
  tracker : Bool
  n_le : n ≤ radarMaxTargets
  deriving DecidableEq, Repr

/-- `struct acc`; `occSince` is an uptime in milliseconds, 0 for none. -/
structure Acc where
  maxCount : UInt8
  frames : UInt16
  occFrames : UInt16
  anyTracker : Bool
  occSince : ℤ
  deriving DecidableEq, Repr

/-- `acc` at power-up. -/
def Acc.zero : Acc := ⟨0, 0, 0, false, 0⟩

/-- `struct radar_window`. -/
structure RadarWindow where
  headcount : UInt8
  occS : UInt8
  dwellS : UInt16
  alive : Bool
  tracker : Bool
  deriving DecidableEq, Repr

/-- The locked section of `on_frame`, at uptime `now`. -/
def onFrame (acc : Acc) (d : Decided) (now : ℤ) : Acc :=
  let acc := { acc with frames := acc.frames + 1 }
  let acc := if d.tracker then { acc with anyTracker := true } else acc
  if d.n > 0 then
    let acc := { acc with occFrames := acc.occFrames + 1 }
    let acc := if d.n > acc.maxCount.toNat then { acc with maxCount := .ofNat d.n } else acc
    if acc.occSince = 0 then { acc with occSince := now } else acc
  -- one empty frame breaks the dwell clock
  else { acc with occSince := 0 }

/-- `radar_window_take`, at uptime `now`. -/
def radarWindowTake (acc : Acc) (now : ℤ) : RadarWindow × Acc :=
  let alive := decide (acc.frames > 0)
  let occS := if acc.frames ≠ 0
    then (acc.occFrames.toUInt32 * .ofNat storePeriodS / acc.frames.toUInt32).toUInt8 else 0
  -- a dead sensor stops the occupancy clock
  let occSince := if alive then acc.occSince else 0
  let held := if occSince ≠ 0 then (now - occSince).tdiv 1000 else 0
  let dwellS := if held > 65535 then 65535 else UInt16.ofInt held
  (⟨acc.maxCount, occS, dwellS, alive, acc.anyTracker⟩, ⟨0, 0, 0, false, occSince⟩)

/-! ## Histories -/

/-- A call, with the uptime it reads. -/
inductive RadarEvent where
  | frame (d : Decided) (now : ℤ)
  | take (now : ℤ)
  deriving DecidableEq, Repr

namespace RadarEvent

def time : RadarEvent → ℤ
  | frame _ now => now
  | take now => now

/-- The uptime of a frame. -/
def frameTime : RadarEvent → Option ℤ
  | frame _ now => some now
  | take _ => none

end RadarEvent

def Acc.step (acc : Acc) : RadarEvent → Acc
  | .frame d now => onFrame acc d now
  | .take now => (radarWindowTake acc now).2

/-- The accumulators after a history. -/
def accAfter : List RadarEvent → Acc
  | [] => .zero
  | e :: past => (accAfter past).step e

/-! ## What the window stands for -/

/-- The frames since the last take. -/
def sinceTake : List RadarEvent → List Decided
  | [] => []
  | .frame d _ :: past => d :: sinceTake past
  | .take _ :: _ => []

/-- **A run is broken** by an empty frame, and by a take that saw no frame. -/
def Breaks (past : List RadarEvent) : RadarEvent → Prop
  | .frame d _ => d.n = 0
  | .take _ => sinceTake past = []

instance (past : List RadarEvent) (e : RadarEvent) : Decidable (Breaks past e) :=
  match e with
  | .frame d _ => inferInstanceAs (Decidable (d.n = 0))
  | .take _ => inferInstanceAs (Decidable (sinceTake past = []))

/-- The events since the last break. -/
def sinceBreak : List RadarEvent → List RadarEvent
  | [] => []
  | e :: past => if Breaks past e then [] else e :: sinceBreak past

/-- **The start of the current run**: the uptime of the first frame since the last break. -/
def runStart (past : List RadarEvent) : Option ℤ :=
  ((sinceBreak past).filterMap RadarEvent.frameTime).getLast?

/-- What a history must be for the counters not to wrap and for 0 to mean no uptime: uptimes
are positive and never go back, and there are fewer than 65536 frames between two takes. -/
def Timely : List RadarEvent → Prop
  | [] => True
  | e :: past => Timely past ∧ 0 < e.time ∧ (∀ e' ∈ past, e'.time ≤ e.time) ∧
      (sinceTake (e :: past)).length < 65536

/-- The part of it that the counters and the sentinel need. -/
def Sane : List RadarEvent → Prop
  | [] => True
  | e :: past => Sane past ∧ 0 < e.time ∧ (sinceTake (e :: past)).length < 65536

end PresenceNode
