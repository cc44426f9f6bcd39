import PresenceNode.Spec.Decode
import PresenceNode.Spec.Sen5x

/-!
# The record of a window (`main.c`)

`windowFlush` takes both windows and makes one record of them. The main loop polls the SEN5x
and flushes, the radar thread takes frames; each is a whole call here, in any order. Histories
are kept latest first.
-/

namespace PresenceNode

/-- The state of the two sensors. -/
structure Sensors where
  acc : Acc
  air : Sen5x

/-- The flags of a record, by whether the radar and the SEN5x were alive and whether the
tracker was. -/
def windowFlags (alive airAlive tracker : Bool) : UInt8 :=
  let flags : UInt8 := 0
  let flags := if !alive then flags ||| sntlFlagSensorFault else flags
  let flags := if !airAlive then flags ||| sntlFlagAqFault else flags
  let flags := if !tracker then flags ||| sntlFlagNoTracker else flags
  flags ||| sntlFlagRtcUnset

/-- The record made of two windows. -/
def windowRecord (w : RadarWindow) (aq : Sen5xWindow) : SntlRecord where
  seq := 0
  ts := 0
  headcount := w.headcount
  occS := w.occS
  dwellS := w.dwellS
  flags := windowFlags w.alive aq.alive w.tracker
  batt := 100
  pm25 := aq.pm25
  pm10 := aq.pm10
  temp := aq.temp
  rh := aq.rh
  voc := aq.voc

/-- `window_flush`, at uptime `now`: the record it passes to `store_append`. -/
def windowFlush (s : Sensors) (now : ℤ) (status : Transfer) : SntlRecord × Sensors :=
  let (w, acc) := radarWindowTake s.acc now
  let (aq, air) := sen5xWindowTake s.air status
  (windowRecord w aq, ⟨acc, air⟩)

/-- A flag is set. -/
def SntlRecord.Has (rec : SntlRecord) (flag : UInt8) : Prop := rec.flags &&& flag ≠ 0

instance (rec : SntlRecord) (flag : UInt8) : Decidable (rec.Has flag) :=
  inferInstanceAs (Decidable (_ ≠ _))

/-- What the status transaction reads, if it succeeds, is the status register. -/
def Transfer.Delivers (t : Transfer) (reg : UInt32) : Prop :=
  ∀ w, readWords t 2 = .ok w → statusOf w = reg

/-- **The fields of a record agree with each other.** -/
structure SntlRecord.Coherent (rec : SntlRecord) : Prop where
  occS_le : rec.occS.toNat ≤ storePeriodS
  headcount_le : rec.headcount.toNat ≤ radarMaxTargets
  /-- Nothing is reported by a radar that was not seen. -/
  fault : rec.Has sntlFlagSensorFault →
    rec.headcount = 0 ∧ rec.occS = 0 ∧ rec.dwellS = 0 ∧ rec.Has sntlFlagNoTracker
  /-- Without the tracker the headcount is a floor. -/
  floor : rec.Has sntlFlagNoTracker → rec.headcount.toNat ≤ 1
  occupied : 0 < rec.occS → 1 ≤ rec.headcount.toNat
  dwelling : 0 < rec.dwellS → 1 ≤ rec.headcount.toNat ∧ ¬ rec.Has sntlFlagSensorFault

/-! ## Histories -/

/-- A call. -/
inductive SensorEvent where
  /-- `on_frame`, at an uptime. -/
  | frame (frame : List UInt8) (now : ℤ)
  /-- `sen5x_poll`. -/
  | poll (t : Transfer)
  /-- `window_flush`, at an uptime and with the status transaction. -/
  | flush (now : ℤ) (status : Transfer)

def Sensors.step (s : Sensors) : SensorEvent → Sensors
  | .frame frame now =>
    match decided frame with
    | some d => { s with acc := onFrame s.acc d now }
    | none => s
  | .poll t => { s with air := sen5xPoll s.air t }
  | .flush now status => (windowFlush s now status).2

/-- The sensors after a history, from how `sen5x_start` left the SEN5x. -/
def sensorsAfter (air : Sen5x) : List SensorEvent → Sensors
  | [] => ⟨.zero, air⟩
  | e :: past => (sensorsAfter air past).step e

/-- What the radar's accumulators see of a history. -/
def radarPast : List SensorEvent → List RadarEvent
  | [] => []
  | .frame frame now :: past =>
    match decided frame with
    | some d => .frame d now :: radarPast past
    | none => radarPast past
  | .poll _ :: past => radarPast past
  | .flush now _ :: past => .take now :: radarPast past

/-- The polls since the last flush. -/
def pollsSince : List SensorEvent → List Transfer
  | [] => []
  | .frame _ _ :: past => pollsSince past
  | .poll t :: past => t :: pollsSince past
  | .flush _ _ :: _ => []

/-- **A read succeeded** in the current window. -/
def ReadSince (air : Sen5x) (past : List SensorEvent) : Prop :=
  air.running = true ∧ ∃ t ∈ pollsSince past, t.Good 8

end PresenceNode
