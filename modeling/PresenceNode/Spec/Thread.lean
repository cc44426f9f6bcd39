import PresenceNode.Lib.Machine
import PresenceNode.Spec.Decode
import PresenceNode.Spec.Tlv

/-!
# The radar thread (`radar_thread` in `radar.c`)

The thread configures the sensor, takes the bytes of the ring in chunks and pushes them, one
by one, to the reassembler; after `RADAR_STALL_MS` without a frame it configures again. The
main loop takes the windows in between. Both hold `acc_lock` while they touch `acc`, so a run
is a sequence of the thread's steps and of takes, in any order, each at an uptime.
-/

namespace PresenceNode

abbrev radarStallMs : ℤ := 10000

/-- Where `radar_thread` is. -/
inductive RadarPc where
  /-- In `radar_configure`, or in the pause before the next try. -/
  | configuring
  /-- At the test of the inner loop. -/
  | streaming
  /-- In the loop over a chunk, with these bytes to go. -/
  | pushing (chunk : List UInt8)
  /-- There, after `acc_lock` was let go in `on_frame`. -/
  | counted (chunk : List UInt8)
  deriving DecidableEq, Repr

/-- What the thread does next with the rest of a chunk. -/
def RadarPc.rest : List UInt8 → RadarPc
  | [] => .streaming
  | b :: bs => .pushing (b :: bs)

/-- **The state**: `re`, `last_frame` and `acc`, and the uptime of the latest step. The last
three are what an observer notes: whether the sensor has streamed before, when it was last
configured again after a stall, and whether the occupancy clock has stood at 0 since. -/
structure RadarNode where
  pc : RadarPc
  re : Reasm
  lastFrame : ℤ
  acc : Acc
  now : ℤ
  streamed : Bool
  restarted : Option ℤ
  stopped : Bool

inductive RadarStep where
  /-- `radar_configure` returns `rc`. -/
  | configured (rc : ℤ)
  /-- The test of the inner loop, and what `ring_buf_get` then hands over. -/
  | look (chunk : List UInt8)
  /-- `tlv_push`, and on 1 `on_frame` up to the end of its locked section. -/
  | push
  /-- The rest of `on_frame`, `tlv_reset`, and the uptime for `last_frame`. -/
  | resume
  /-- `radar_window_take`, by the main loop. -/
  | take
  deriving DecidableEq, Repr

namespace RadarNode

/-- At power-up, with `acc` and `re` zeroed. -/
def powerUp : RadarNode := ⟨.configuring, .zero, 0, .zero, 0, false, none, false⟩

/-- `radar_configure` has returned 0. -/
def stream (s : RadarNode) (now : ℤ) : RadarNode :=
  { s with
    pc := .streaming
    re := tlvReset s.re
    lastFrame := now
    streamed := true
    restarted := if s.streamed then some now else s.restarted
    stopped := if s.streamed then decide (s.acc.occSince = 0) else s.stopped }

/-- `on_frame` counts a frame. -/
def count (s : RadarNode) (d : Decided) (now : ℤ) : RadarNode :=
  { s with acc := onFrame s.acc d now, stopped := s.stopped || decide (d.n = 0) }

/-- One byte of a chunk. An access out of bounds, which C leaves undefined, would leave the
state as it is. -/
def push (s : RadarNode) (b : UInt8) (chunk : List UInt8) (now : ℤ) : RadarNode :=
  match tlvPush s.re b with
  | some (re, true) =>
    match decided re.frame with
    | some d => { s.count d now with re := re, pc := .counted chunk }
    | none => s
  | some (re, false) => { s with re := re, pc := .rest chunk }
  | none => s

/-- `radar_window_take`. -/
def take (s : RadarNode) (now : ℤ) : RadarNode :=
  { s with
    acc := (radarWindowTake s.acc now).2
    stopped := s.stopped || decide (s.acc.frames = 0) }

/-- A step that is not the thread's next leaves everything as it is. -/
def act (s : RadarNode) (now : ℤ) : RadarStep → RadarNode
  | .configured rc =>
    match s.pc with
    | .configuring => if rc = 0 then s.stream now else s
    | _ => s
  | .look chunk =>
    match s.pc with
    | .streaming =>
      if now - s.lastFrame < radarStallMs then { s with pc := .rest chunk }
      else { s with pc := .configuring }
    | _ => s
  | .push =>
    match s.pc with
    | .pushing (b :: chunk) => s.push b chunk now
    | _ => s
  | .resume =>
    match s.pc with
    | .counted chunk => { s with pc := .rest chunk, re := tlvReset s.re, lastFrame := now }
    | _ => s
  | .take => s.take now

def step (s : RadarNode) (e : ℤ × RadarStep) : RadarNode := { s.act e.1 e.2 with now := e.1 }

/-- Uptimes do not go back. -/
def Forward (s : RadarNode) (e : ℤ × RadarStep) : Prop := s.now ≤ e.1

instance (s : RadarNode) (e : ℤ × RadarStep) : Decidable (s.Forward e) :=
  inferInstanceAs (Decidable (_ ≤ _))

end RadarNode

def radarMachine : Machine RadarNode (ℤ × RadarStep) := ⟨RadarNode.step⟩

end PresenceNode
