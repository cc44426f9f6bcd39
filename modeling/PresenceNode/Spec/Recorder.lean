import PresenceNode.Lib.Machine
import PresenceNode.Spec.Flush
import PresenceNode.Spec.Clock

/-!
# The recorder (`main.c`)

Boots, radar frames, the main loop and losses of power in any order. The main loop polls the SEN5x
once in each iteration, and when `sec` has counted a record period it makes a record of the two
windows and appends it. Beside the state the calls of `window_flush` are kept, each with what the
sensors had done since its boot.
-/

namespace PresenceNode

instance decidableTimely : (past : List RadarEvent) → Decidable (Timely past)
  | [] => isTrue trivial
  | e :: past =>
    have := decidableTimely past
    inferInstanceAs (Decidable (Timely past ∧ 0 < e.time ∧ (∀ e' ∈ past, e'.time ≤ e.time) ∧
      (sinceTake (e :: past)).length < 65536))

/-- **A call of `window_flush`**: how `sen5x_start` left the SEN5x in its boot, what the sensors did
since, latest first, the uptime, and the status transaction. -/
structure Flush where
  air : Sen5x
  past : List SensorEvent
  now : ℤ
  status : Transfer

/-- The record it passes to `store_append`. -/
def Flush.record (f : Flush) : SntlRecord :=
  (windowFlush (sensorsAfter f.air f.past) f.now f.status).1

/-- **The recorder**: the store, the sensors, `sec`, whether `window_flush` is due; the history since
the boot, and the flushes of all boots, latest first. -/
structure Recorder where
  life : Life SntlRecord
  sensors : Sensors
  sec : UInt32
  due : Bool
  air : Sen5x
  past : List SensorEvent
  flushes : List Flush

inductive RecorderEvent where
  /-- `main` up to its loop: `store_init`, and `sen5x_start` on a bus that is ready or not, with what
  the start command returns. -/
  | boot (fates : List Fate) (ready : Bool) (cmd : ℤ)
  /-- `on_frame`, at an uptime. -/
  | frame (frame : List UInt8) (now : ℤ)
  /-- An iteration up to the test of `sec`. -/
  | poll (t : Transfer)
  /-- `window_flush`, with the uptimes of `radar_window_take` and of `store_append`. -/
  | flush (now : ℤ) (status : Transfer) (up : ℕ) (fates : List Fate)
  | off

namespace Recorder

/-- A recorder that is switched off. -/
def start (fl : Flash) : Recorder :=
  ⟨.start fl, ⟨.zero, ⟨false, .unknown⟩⟩, 0, false, ⟨false, .unknown⟩, [], []⟩

/-- A call that only the sensors see. -/
def sense (r : Recorder) (e : SensorEvent) : Recorder :=
  { r with sensors := r.sensors.step e, past := e :: r.past }

/-- `if (++sec >= STORE_PERIOD_S)`. -/
def count (r : Recorder) : Recorder :=
  let sec := r.sec + 1
  if sec ≥ .ofNat storePeriodS then { r with sec := 0, due := true } else { r with sec := sec }

/-- One event. Without power nothing runs; the main loop polls when no flush is due. -/
def step (r : Recorder) : RecorderEvent → Recorder
  | .boot fates ready cmd =>
    let air := (sen5xStart ready cmd).2
    ⟨r.life.step sntlLayout (.boot fates), ⟨.zero, air⟩, 0, false, air, [], r.flushes⟩
  | .frame frame now => if r.life.ram.isSome then r.sense (.frame frame now) else r
  | .poll t => if r.life.ram.isSome ∧ r.due = false then (r.sense (.poll t)).count else r
  | .flush now status up fates =>
    if r.life.ram.isSome ∧ r.due = true then
      let (rec, sensors) := windowFlush r.sensors now status
      { r with
        life := r.life.step sntlLayout (.append rec up fates)
        sensors := sensors
        due := false
        past := .flush now status :: r.past
        flushes := ⟨r.air, r.past, now, status⟩ :: r.flushes }
    else r
  | .off => { r with life := r.life.step sntlLayout .off }

/-- **The radar's clock runs on**: its uptimes are positive and do not go back, and fewer than 65536
frames come between two takes. -/
def InOrder (r : Recorder) : RecorderEvent → Prop
  | .flush now _ _ _ => Timely (.take now :: radarPast r.past)
  | _ => True

/-- **No append laps the saved counters.** -/
def Unlapped (r : Recorder) : RecorderEvent → Prop
  | .flush _ _ _ _ => ∀ ram ∈ r.life.ram, ram.mounted = true →
      ¬ (metaOf r.life.flash).InRing ram.counters.nextSeq
  | _ => True

/-- **The flash works**: a window is flushed in a boot whose `store_init` returned 0, and neither write
fails. The seqs do not run out. -/
def Works (r : Recorder) : RecorderEvent → Prop
  | .flush _ _ _ fates => fates = [] ∧
      ∀ ram ∈ r.life.ram, ram.mounted = true ∧ ram.counters.nextSeq.toNat < 2 ^ 32 - 1
  | _ => True

instance (r : Recorder) (e : RecorderEvent) : Decidable (r.InOrder e) :=
  match e with
  | .flush now _ _ _ => decidableTimely (.take now :: radarPast r.past)
  | .boot _ _ _ | .frame _ _ | .poll _ | .off => isTrue trivial

instance (r : Recorder) (e : RecorderEvent) : Decidable (r.Unlapped e) :=
  match e with
  | .flush _ _ _ _ =>
    Option.decidableForallMem (p := fun (ram : Ram) => ram.mounted = true →
      ¬ (metaOf r.life.flash).InRing ram.counters.nextSeq) r.life.ram
  | .boot _ _ _ | .frame _ _ | .poll _ | .off => isTrue trivial

instance (r : Recorder) (e : RecorderEvent) : Decidable (r.Works e) :=
  match e with
  | .flush _ _ _ fates =>
    have : Decidable (∀ ram ∈ r.life.ram,
        ram.mounted = true ∧ ram.counters.nextSeq.toNat < 2 ^ 32 - 1) :=
      Option.decidableForallMem (p := fun (ram : Ram) =>
        ram.mounted = true ∧ ram.counters.nextSeq.toNat < 2 ^ 32 - 1) r.life.ram
    inferInstanceAs (Decidable (fates = [] ∧ _))
  | .boot _ _ _ | .frame _ _ | .poll _ | .off => isTrue trivial

end Recorder

def recorderMachine : Machine Recorder RecorderEvent := ⟨Recorder.step⟩

/-! ## What a record tells -/

/-- The radar window in a record. -/
def SntlRecord.radarWindow (rec : SntlRecord) : RadarWindow where
  headcount := rec.headcount
  occS := rec.occS
  dwellS := rec.dwellS
  alive := !decide (rec.Has sntlFlagSensorFault)
  tracker := !decide (rec.Has sntlFlagNoTracker)

/-- The SEN5x window in a record. -/
def SntlRecord.airWindow (rec : SntlRecord) : Sen5xWindow where
  pm25 := rec.pm25
  pm10 := rec.pm10
  temp := rec.temp
  rh := rec.rh
  voc := rec.voc
  alive := !decide (rec.Has sntlFlagAqFault)

end PresenceNode
