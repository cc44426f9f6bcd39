import PresenceNode.Lib.Script
import PresenceNode.Spec.Store
import Mathlib.Data.List.Infix

/-!
# The radar's command line (`radar.c`)

The demo answers each complete line, in order and some time later, with its echo, a text and
the prompt. What it has answered and the UART has not delivered yet is `out`; what has
arrived and was not read is in the ring. `cli_drain`, `cli_write` and `cli_wait` see the
demo only through these, and bytes arrive whenever they wait.

The buffer of `cli_wait` is the list of its bytes here, and its diagnostics are left out;
`Spec/Wait` has the arrays.
-/

namespace PresenceNode

/-- The bytes of a string. -/
def ascii (s : String) : List UInt8 := s.toUTF8.data.toList

abbrev newline : UInt8 := 0x0A

def radarPrompt : List UInt8 := ascii "mmwDemo:/>"

/-- What `cli_wait` looks for. -/
def doneToken : List UInt8 := ascii "Done"

/-- **The demo**: the text of its `n`-th answer, and what it prints after NRST, if that is
wired. -/
structure Demo where
  text : ℕ → List UInt8
  banner : Option (List UInt8)

/-- A moment of waiting: how many bytes have arrived, and what `k_uptime_get` says then. -/
structure Moment where
  bytes : ℕ
  now : ℕ
  deriving DecidableEq, Repr

/-- A call of `cli_line`: the line, what the demo had still to deliver of earlier answers
when `cli_drain` had emptied the ring, its answer to this line, and the result. -/
structure CliCall where
  line : List UInt8
  stale : List UInt8
  answer : List UInt8
  ok : Bool
  deriving DecidableEq, Repr

/-- **The link**: the half line in the demo's parser, the number of its answers and the last
one, what it has still to deliver, the ring, and the calls of `cli_line` so far. -/
structure Cli where
  typed : List UInt8
  answers : ℕ
  answer : List UInt8
  out : List UInt8
  ring : List UInt8
  calls : List CliCall
  deriving DecidableEq, Repr

namespace Cli

/-- Bytes arrive. -/
def arrive (c : Cli) (n : ℕ) : Cli :=
  { c with out := c.out.drop n, ring := c.ring ++ c.out.take n }

/-- `uart_poll_out`: the demo collects characters, and answers a complete line. -/
def pollOut (demo : Demo) (b : UInt8) (c : Cli) : Cli :=
  if b = newline then
    let answer := c.typed ++ demo.text c.answers ++ radarPrompt
    { c with typed := [], answers := c.answers + 1, answer := answer, out := c.out ++ answer }
  else { c with typed := c.typed ++ [b] }

/-- NRST goes low, or high again; without its wire nothing happens. -/
def nrst (demo : Demo) (low : Bool) (c : Cli) : Cli :=
  match demo.banner with
  | none => c
  | some banner =>
    if low then { c with typed := [], out := [] }
    else { c with out := c.out ++ banner ++ radarPrompt }

end Cli

abbrev CliM := Scripted Moment Cli

/-- The program waits, and bytes arrive. -/
def pause : CliM ℕ := do
  let m ← Scripted.next
  Scripted.modify fun c => c.arrive m.bytes
  return m.now

/-- `cli_drain`: what arrives while it runs is gone as well. -/
def cliDrain : CliM Unit := do
  let _ ← pause
  Scripted.modify fun c => { c with ring := [] }

/-- `cli_write`. -/
def cliWrite (demo : Demo) : List UInt8 → CliM Unit
  | [] => return ()
  | b :: s => do
    Scripted.modify fun c => c.pollOut demo b
    let _ ← pause
    cliWrite demo s

/-- `strstr(buf, s) != NULL`: the search ends at a zero byte. -/
def strstr (buf s : List UInt8) : Bool := s <:+: buf.takeWhile (· ≠ 0)

abbrev cliBufSize : ℕ := 96

/-- A full buffer slides, keeping its last 16 bytes. -/
def slide (buf : List UInt8) : List UInt8 :=
  if buf.length ≥ cliBufSize - 1 then buf.drop (buf.length - 16) else buf

/-- A round of `cli_wait`, with the buffer and whether the token was seen. -/
def cliWaitRound (deadline : ℕ) (m : Moment) (st : List UInt8 × Bool) (c : Cli) :
    (Bool ⊕ (List UInt8 × Bool)) × Cli :=
  let c := c.arrive m.bytes
  if m.now < deadline then
    match c.ring with
    | [] => (.inr st, c)
    | b :: ring =>
      let buf := st.1 ++ [b]
      let seen := st.2 || strstr buf doneToken
      if strstr buf radarPrompt then (.inl seen, { c with ring := ring })
      else (.inr (slide buf, seen), { c with ring := ring })
  else (.inl st.2, c)

/-- `cli_wait`. -/
def cliWait (timeoutMs : ℕ) : CliM Bool := do
  let now ← pause
  Scripted.loop (cliWaitRound (now + timeoutMs)) ([], false)

/-- `cli_line`. -/
def cliLine (demo : Demo) (line : List UInt8) (timeoutMs : ℕ) : CliM Bool := do
  cliDrain
  let drained ← Scripted.get
  cliWrite demo line
  cliWrite demo [newline]
  let ok ← cliWait timeoutMs
  Scripted.modify fun c => { c with calls := c.calls ++ [⟨line, drained.out, c.answer, ok⟩] }
  return ok

/-- `radar_reset`. -/
def radarReset (demo : Demo) : CliM Unit := do
  let _ ← cliLine demo (ascii "sensorStop 0") 2000
  let _ ← cliLine demo (ascii "sensorWarmRst 0") 2000
  Scripted.modify fun c => c.nrst demo true
  let _ ← pause
  Scripted.modify fun c => c.nrst demo false
  let _ ← pause
  cliDrain
  let _ ← cliLine demo [] 500

/-- `cfg_lines`. -/
def cfgLines : List (List UInt8) :=
  ["sensorStop 0",
    "channelCfg 7 3 0",
    "chirpComnCfg 8 0 0 256 4 23 2",
    "chirpTimingCfg 6 24 0 75 60.5",
    "frameCfg 2 4 600 4 250 0",
    "guiMonitor 2 0 0 0 0 1 1 0 1 0 0 0",
    "sigProcChainCfg 64 4 3 2 4 4 0 0.5",
    "cfarCfg 2 8 4 3 0 15 0 0.5 0 1 1 1",
    "aoaFovCfg -70 70 -60 60",
    "rangeSelCfg 0.25 7.5",
    "clutterRemoval 1",
    "compRangeBiasAndRxChanPhase 0.0 1.00000 0.00000 -1.00000 0.00000 1.00000 0.00000 " ++
      "-1.00000 0.00000 1.00000 0.00000 -1.00000 0.00000",
    "adcDataSource 0 adc_data_0001_CtestAdc6Ant.bin",
    "adcLogging 0",
    "lowPowerCfg 0",
    "factoryCalibCfg 1 0 36 3 0x1ff000",
    "sensorPosition 0 0 1.5 0 0",
    "mpdBoundaryBox 1 -3.5 3.5 0 7 0 3",
    "minorStateCfg 4 3 12 8 5 20 4 20",
    "clusterCfg 1 1 2",
    "trackingCfg 1 2 100 3 61.4 191.8 250",
    "sensorStart 0 0 0 0"].map ascii

/-- The last of them. -/
def sensorStart : List UInt8 := ascii "sensorStart 0 0 0 0"

/-- `strncmp(ln, "sensorStart", 11) == 0`. -/
def isStart (line : List UInt8) : Bool := ascii "sensorStart" <+: line

/-- The loop of `radar_configure`: a line that is refused does not end it, unless it is the
last. -/
def configure (demo : Demo) : List (List UInt8) → CliM ℤ
  | [] => return 0
  | line :: lines => do
    let ok ← cliLine demo line (if isStart line then 15000 else 3000)
    if ok then configure demo lines
    else if isStart line then return -eio
    else configure demo lines

/-- `radar_configure`. -/
def radarConfigure (demo : Demo) : CliM ℤ := do
  radarReset demo
  configure demo cfgLines

namespace CliCall

/-- The demo accepted the line. -/
def Accepted (call : CliCall) : Prop := doneToken <:+: call.answer

/-- **The line's own answer decides**: it is accepted if `cli_line` says so. -/
def Own (call : CliCall) : Prop := call.ok = true → call.Accepted

/-- Once the ring is drained, no acceptance of an earlier line is still to come. -/
def Fresh (call : CliCall) : Prop := ¬ doneToken <:+: call.stale

instance (call : CliCall) : Decidable call.Accepted := inferInstanceAs (Decidable (_ <:+: _))
instance (call : CliCall) : Decidable call.Own := inferInstanceAs (Decidable (_ → _))
instance (call : CliCall) : Decidable call.Fresh := inferInstanceAs (Decidable (¬ _))

end CliCall

/-- The link when `radar_configure` begins: a half line, earlier answers that were not
delivered, and what was not read. -/
def Cli.start (typed : List UInt8) (earlier : List (List UInt8)) (ring : List UInt8) : Cli where
  typed := typed
  answers := 0
  answer := []
  out := earlier.flatMap fun bs => bs ++ radarPrompt
  ring := ring
  calls := []

/-- How far `radar_configure` has come. -/
def configuring (demo : Demo) (typed : List UInt8) (earlier : List (List UInt8))
    (ring : List UInt8) (script : List Moment) : Progress Moment Cli ℤ :=
  (radarConfigure demo).run (.start typed earlier ring) script

end PresenceNode
