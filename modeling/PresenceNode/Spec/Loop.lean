import PresenceNode.Spec.Store

/-!
# The main loop (`main.c`)

An iteration polls the SEN5x, flushes the window when `sec` has counted a record period, and
sleeps until `next_tick`. Uptimes are in milliseconds. How long the work of an iteration takes
is arbitrary; `k_msleep` sleeps as long as it is asked to.
-/

namespace PresenceNode

/-- The variables of the loop, and what `k_uptime_get` says. -/
structure MainLoop where
  now : ℤ
  nextTick : ℤ
  sec : UInt32
  deriving DecidableEq, Repr

/-- **An iteration**: when it starts, whether it calls `window_flush`, the delay it computes,
and the argument of `k_msleep` if it sleeps. -/
structure Iteration where
  start : ℤ
  flushed : Bool
  delay : ℤ
  slept : Option Int32
  deriving DecidableEq, Repr

/-- Before the loop. -/
def MainLoop.init (t0 : ℤ) : MainLoop := ⟨t0, t0 + 1000, 0⟩

/-- One iteration, whose work takes `work` ms. -/
def MainLoop.step (s : MainLoop) (work : ℕ) : Iteration × MainLoop :=
  let sec := s.sec + 1
  let flushed : Bool := sec ≥ .ofNat storePeriodS
  let sec := if flushed then 0 else sec
  -- `sen5x_poll`, and `window_flush` if it is called
  let now := s.now + work
  let delay := s.nextTick - now
  let slept := if delay > 0 then some (Int32.ofInt delay) else none
  (⟨s.now, flushed, delay, slept⟩,
    ⟨now + (slept.map Int32.toInt).getD 0, s.nextTick + 1000, sec⟩)

/-- The loop after `k` iterations. -/
def loopAt (t0 : ℤ) (work : ℕ → ℕ) : ℕ → MainLoop
  | 0 => .init t0
  | k + 1 => ((loopAt t0 work k).step (work k)).2

/-- Iteration `k`. -/
def iteration (t0 : ℤ) (work : ℕ → ℕ) (k : ℕ) : Iteration := ((loopAt t0 work k).step (work k)).1

/-- How many windows were flushed before iteration `k`. -/
def flushes (t0 : ℤ) (work : ℕ → ℕ) (k : ℕ) : ℕ :=
  (List.range k).countP fun i => (iteration t0 work i).flushed

/-- Work of 2.5 s is caught up by the iterations after it. -/
example : (List.range 4).map (fun k => (iteration 0 (fun i => if i = 0 then 2500 else 20) k).start) =
    [0, 2500, 2520, 3000] := by decide +kernel

end PresenceNode
