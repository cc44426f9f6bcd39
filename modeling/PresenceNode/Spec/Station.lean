import PresenceNode.Spec.Recorder
import PresenceNode.Spec.Uart

/-!
# The whole node (`radar.c`, `main.c`)

The interrupt and the radar thread run beside the main loop, from one boot to the next loss of
power. Every step of theirs is an event of its own, in any order. The frames that the thread
completes are the frames that the windows count.
-/

namespace PresenceNode

variable {σ : Type} (F : RxRing σ)

/-- The frame that a step hands to `on_frame`. -/
def RadarLink.completes (l : RadarLink σ) (e : ℤ × LinkStep) : Option (List UInt8) :=
  match e.2 with
  | .push =>
    match l.node.pc with
    | .pushing (_ :: _) =>
      let node := l.node.step (e.1, .push)
      match node.pc with
      | .counted _ => some node.re.frame
      | _ => none
    | _ => none
  | _ => none

/-- **A window**: the boot it is of, the call of `window_flush`, and where the ring and the thread
were then. -/
structure Window (σ : Type) where
  boot : ℕ
  flush : Flush
  link : RadarLink σ

/-- **The node**: the ring with the thread, the store with the sensors; how often it was booted, and
the windows of all boots, latest first. -/
structure Station (σ : Type) where
  link : RadarLink σ
  recorder : Recorder
  boots : ℕ
  windows : List (Window σ)

inductive StationEvent where
  /-- `main` up to its loop. -/
  | boot (fates : List Fate) (ready : Bool) (cmd : ℤ)
  /-- A step of the interrupt or of the thread, at an uptime. -/
  | radar (now : ℤ) (s : LinkStep)
  /-- An iteration of the main loop up to the test of `sec`. -/
  | poll (t : Transfer)
  /-- `window_flush`. -/
  | flush (now : ℤ) (status : Transfer) (up : ℕ) (fates : List Fate)
  | off

namespace Station

/-- A node that is switched off. -/
def start (fl : Flash) : Station σ := ⟨.powerUp F, .start fl, 0, []⟩

/-- A step of the interrupt or of the thread. -/
def radar (s : Station σ) (e : ℤ × LinkStep) : Station σ where
  link := s.link.step F e
  recorder :=
    match s.link.completes e with
    | some frame => s.recorder.step (.frame frame e.1)
    | none => s.recorder
  boots := s.boots
  windows := s.windows

/-- One event. Without power nothing runs; the takes are the main loop's, in `window_flush`. -/
def step (s : Station σ) : StationEvent → Station σ
  | .boot fates ready cmd =>
    { s with
      link := .powerUp F
      recorder := s.recorder.step (.boot fates ready cmd)
      boots := s.boots + 1 }
  | .radar _ .take => s
  | .radar now e => if s.recorder.life.ram.isSome then s.radar F (now, e) else s
  | .poll t => { s with recorder := s.recorder.step (.poll t) }
  | .flush now status up fates =>
    if s.recorder.life.ram.isSome ∧ s.recorder.due = true then
      { s with
        link := s.link.step F (now, .take)
        recorder := s.recorder.step (.flush now status up fates)
        windows := ⟨s.boots, ⟨s.recorder.air, s.recorder.past, now, status⟩, s.link⟩ :: s.windows }
    else s
  | .off => { s with recorder := s.recorder.step .off }

/-- **The clock runs on**, as the thread's calls see it. -/
def InOrder (s : Station σ) : StationEvent → Prop
  | .flush now _ _ _ => Timely (.take now :: s.link.calls)
  | _ => True

instance (s : Station σ) (e : StationEvent) : Decidable (s.InOrder e) :=
  match e with
  | .flush now _ _ _ => decidableTimely (.take now :: s.link.calls)
  | .boot _ _ _ | .radar _ _ | .poll _ | .off => isTrue trivial

end Station

def stationMachine : Machine (Station σ) StationEvent := ⟨Station.step F⟩

end PresenceNode
