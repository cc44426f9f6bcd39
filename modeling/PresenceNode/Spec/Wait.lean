import PresenceNode.Lib.Sliding
import PresenceNode.Spec.Cli

/-!
# The arrays of `cli_wait` (`radar.c`)

`cliWaitBuf` is `cli_wait` with `buf[96]` and `cli_rx_head[129]`: an access outside them, or a
search that leaves `buf`, gives `none`. `promptWait` reads the same link and knows all bytes it
has read.
-/

namespace PresenceNode

/-! ## Arrays -/

section Arrays

variable {size : ℕ}

/-- `v[i] = b`. -/
def put (v : Vector UInt8 size) (i : ℕ) (b : UInt8) : Option (Vector UInt8 size) :=
  if h : i < size then some (v.set i b h) else none

/-- `memmove(v, v + src, n)`. -/
def moveDown (v : Vector UInt8 size) (src : ℕ) : ℕ → Option (Vector UInt8 size)
  | 0 => some v
  | n + 1 => do
    let moved ← moveDown v src n
    let b ← v.toList[src + n]?
    put moved n b

/-- `strstr(v, s) != NULL`: without a zero byte the search leaves the array. -/
def cStrstr (v : Vector UInt8 size) (s : List UInt8) : Option Bool :=
  if 0 ∈ v.toList then some (strstr v.toList s) else none

end Arrays

/-! ## The function -/

abbrev cliRxHeadSize : ℕ := 129

/-- `cli_rx_n` and `cli_rx_head`, which `cli_line` prints. -/
structure CliRx where
  n : UInt32
  head : Vector UInt8 cliRxHeadSize

/-- A byte is noted. -/
def CliRx.note (rx : CliRx) (b : UInt8) : Option CliRx :=
  if rx.n.toNat < cliRxHeadSize - 1 then do
    let head ← put rx.head rx.n.toNat (if 0x20 ≤ b ∧ b < 0x7F then b else 0x2E)
    let head ← put head (rx.n.toNat + 1) 0
    return ⟨rx.n + 1, head⟩
  else return ⟨rx.n + 1, rx.head⟩

/-- The variables of `cli_wait`. -/
structure CliVars where
  buf : Vector UInt8 cliBufSize
  fill : ℕ
  done : Bool
  rx : CliRx

/-- The variables before the loop; `buf` holds anything, and so does `cli_rx_head`. -/
def CliVars.init (buf : Vector UInt8 cliBufSize) (head : Vector UInt8 cliRxHeadSize) :
    Option CliVars := do
  let buf ← put buf 0 0
  let head ← put head 0 0
  return ⟨buf, 0, false, ⟨0, head⟩⟩

/-- What the loop does with a byte: it returns, or goes on. -/
def CliVars.byte (v : CliVars) (b : UInt8) : Option ((Bool × CliRx) ⊕ CliVars) := do
  let rx ← v.rx.note b
  let buf ← put v.buf v.fill b
  let fill := v.fill + 1
  let buf ← put buf fill 0
  let done ← if v.done then some true else cStrstr buf doneToken
  let prompt ← cStrstr buf radarPrompt
  if prompt then return .inl (done, rx)
  else if fill ≥ cliBufSize - 1 then do
    let buf ← moveDown buf (fill - 16) 16
    let buf ← put buf 16 0
    return .inr ⟨buf, 16, done, rx⟩
  else return .inr ⟨buf, fill, done, rx⟩

/-- A round of `cli_wait`. -/
def cliWaitBufRound (deadline : ℕ) (m : Moment) (v : CliVars) (c : Cli) :
    (Option (Bool × CliRx) ⊕ CliVars) × Cli :=
  let c := c.arrive m.bytes
  if m.now < deadline then
    match c.ring with
    | [] => (.inr v, c)
    | b :: ring =>
      match v.byte b with
      | none => (.inl none, { c with ring := ring })
      | some (.inl r) => (.inl (some r), { c with ring := ring })
      | some (.inr v) => (.inr v, { c with ring := ring })
  else (.inl (some (v.done, v.rx)), c)

/-- **`cli_wait`**, with its arrays. -/
def cliWaitBuf (buf : Vector UInt8 cliBufSize) (head : Vector UInt8 cliRxHeadSize)
    (timeoutMs : ℕ) : CliM (Option (Bool × CliRx)) := do
  let now ← pause
  match CliVars.init buf head with
  | none => return none
  | some v => Scripted.loop (cliWaitBufRound (now + timeoutMs)) v

/-! ## What it is for -/

/-- A round of `promptWait`, with the bytes read so far. -/
def promptRound (deadline : ℕ) (m : Moment) (xs : List UInt8) (c : Cli) :
    ((Bool × List UInt8) ⊕ List UInt8) × Cli :=
  let c := c.arrive m.bytes
  if m.now < deadline then
    match c.ring with
    | [] => (.inr xs, c)
    | b :: ring =>
      if radarPrompt <:+ xs ++ [b] then
        (.inl (doneToken <:+: xs ++ [b], xs ++ [b]), { c with ring := ring })
      else (.inr (xs ++ [b]), { c with ring := ring })
  else (.inl (doneToken <:+: xs, xs), c)

/-- **Read until the prompt comes back**, or the deadline: whether the token was seen, and the
bytes read. -/
def promptWait (timeoutMs : ℕ) : CliM (Bool × List UInt8) := do
  let now ← pause
  Scripted.loop (promptRound (now + timeoutMs)) []

/-- **`cli_wait` recognises its tokens**: it ends as `promptWait` does, with the same result,
and leaves the same bytes. -/
def Recognises (buf : Vector UInt8 cliBufSize) (head : Vector UInt8 cliRxHeadSize)
    (timeoutMs : ℕ) (c : Cli) (script : List Moment) : Prop :=
  ((cliWaitBuf buf head timeoutMs).run c script).map (Option.map Prod.fst) =
    ((promptWait timeoutMs).run c script).map fun r => some r.1

/-- What `cli_wait` searches when it has read `n` of some bytes. -/
def searched (xs : List UInt8) (n : ℕ) : List UInt8 := Sliding.window (cliBufSize - 1) 16 xs n

/-- **No zero byte hides a token** of what was read: there is none in the buffer when the prompt
is complete, and at some byte the token was in the buffer with no zero before it. -/
structure Unhidden (xs : List UInt8) : Prop where
  prompt : radarPrompt <:+ xs → 0 ∉ searched xs xs.length
  done : doneToken <:+: xs →
    ∃ n ≤ xs.length, ∃ pre post, searched xs n = pre ++ doneToken ++ post ∧ 0 ∉ pre

end PresenceNode
