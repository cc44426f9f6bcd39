import PresenceNode.Lib.Machine

/-!
# The advertising window (`ble.c`)

The button's interrupt, the timer of `adv_off_work`, the Bluetooth thread and the system
work queue share a flag, two work items and the radio. The queue runs one item at a time,
in order; an item that is already queued is not queued twice, one that is running is.

The button's handler runs in an interrupt: until it is through, only the timer can come in
between.
-/

namespace PresenceNode

/-- `adv_on_work` and `adv_off_work`. -/
inductive AdvWork where
  | on
  | off
  deriving DecidableEq, Repr

/-- What the work queue is at: `adv_on_fn`, `adv_off_fn` before it clears the flag, or
after that. -/
inductive AdvRunning where
  | on
  | off
  | closing
  deriving DecidableEq, Repr

/-- **The state**: `adv_window_open`, whether the timer of `adv_off_work` runs, the queue,
and whether the node is advertising. `pressing` and `leaving` say that
`ble_advertise_window` and `disconnected` are half way through. -/
structure Adv where
  windowOpen : Bool
  scheduled : Bool
  queue : List AdvWork
  running : Option AdvRunning
  advertising : Bool
  pressing : Bool
  leaving : Bool
  deriving DecidableEq, Repr

inductive AdvEvent where
  /-- `ble_advertise_window`: open the window and submit `adv_on_work`. -/
  | press
  /-- Its `k_work_reschedule`. -/
  | reschedule
  /-- The timer of `adv_off_work` expires. -/
  | expire
  /-- The work queue takes its next item. -/
  | take
  /-- `adv_off_fn` clears the flag. -/
  | close
  /-- The running handler ends; `started` is whether `bt_le_adv_start` returned 0. -/
  | finish (started : Bool)
  /-- A central connects, which stops the advertising. -/
  | connected
  /-- `disconnected`: look at the flag. -/
  | disconnected
  /-- Its `k_work_submit`. -/
  | resubmit
  deriving DecidableEq, Repr

namespace Adv

/-- Before the first press. -/
def idle : Adv := ⟨false, false, [], none, false, false, false⟩

/-- `k_work_submit`. -/
def submit (w : AdvWork) (queue : List AdvWork) : List AdvWork :=
  if w ∈ queue then queue else queue ++ [w]

/-- The end of a handler. -/
def finish (s : Adv) (started : Bool) : Adv :=
  match s.running with
  | some .on => { s with running := none, advertising := s.advertising || started }
  | some .closing => { s with running := none, advertising := false }
  | _ => s

/-- An event of the threads, none of which run while the button's handler does. -/
def thread (s : Adv) : AdvEvent → Adv
  | .take =>
    match s.running, s.queue with
    | none, .on :: queue => { s with running := some .on, queue := queue }
    | none, .off :: queue => { s with running := some .off, queue := queue }
    | _, _ => s
  | .close =>
    if s.running = some .off then { s with running := some .closing, windowOpen := false } else s
  | .finish started => s.finish started
  | .connected => if s.leaving then s else { s with advertising := false }
  | .disconnected => if s.leaving then s else { s with leaving := s.windowOpen }
  | .resubmit =>
    if s.leaving then { s with leaving := false, queue := submit .on s.queue } else s
  | _ => s

def step (s : Adv) : AdvEvent → Adv
  | .press =>
    if s.pressing then s
    else { s with pressing := true, windowOpen := true, queue := submit .on s.queue }
  | .reschedule => if s.pressing then { s with pressing := false, scheduled := true } else s
  | .expire =>
    if s.scheduled then { s with scheduled := false, queue := submit .off s.queue } else s
  | e => if s.pressing then s else s.thread e

end Adv

def advMachine : Machine Adv AdvEvent := ⟨Adv.step⟩

namespace Adv

/-- `adv_off_work` has expired and not yet cleared the flag. -/
def OffPending (s : Adv) : Prop := .off ∈ s.queue ∨ s.running = some .off

instance (s : Adv) : Decidable s.OffPending := inferInstanceAs (Decidable (_ ∨ _))

/-- No item is queued or running. -/
def Quiet (s : Adv) : Prop := s.queue = [] ∧ s.running = none

/-- **The window bounds visibility**: with no work left, an advertising node is inside its
window and the end of it is scheduled. -/
def Bounded (s : Adv) : Prop :=
  s.Quiet → s.advertising = true → s.windowOpen = true ∧ s.scheduled = true

/-- **What an event must not do**: submit `adv_on_work` behind a pending `adv_off_work`, or
once the flag it was submitted for is gone. An item that is queued already stays where it
is. -/
def Guard (s : Adv) : AdvEvent → Prop
  | .press => .on ∈ s.queue ∨ ¬ s.OffPending
  | .resubmit => s.leaving = true → .on ∈ s.queue ∨ (s.windowOpen = true ∧ ¬ s.OffPending)
  | _ => True

instance (s : Adv) (e : AdvEvent) : Decidable (s.Guard e) :=
  match e with
  | .press => inferInstanceAs (Decidable (.on ∈ s.queue ∨ ¬ s.OffPending))
  | .resubmit =>
    inferInstanceAs (Decidable
      (s.leaving = true → .on ∈ s.queue ∨ (s.windowOpen = true ∧ ¬ s.OffPending)))
  | .reschedule | .expire | .take | .close | .finish _ | .connected
  | .disconnected => isTrue trivial

end Adv

end PresenceNode
