import PresenceNode.Lib.Fifo
import PresenceNode.Spec.Thread

/-!
# From the UART to the radar thread (`radar.c`)

`uart_isr` moves what the driver has into `rx_rb`, and only the radar thread takes it out:
`cli_drain` and `cli_wait` a byte at a time, the streaming loop in chunks. The ring is safe for
one producer and one consumer, so its calls are whole; the interrupt may come between any two
steps of the thread.
-/

namespace PresenceNode

abbrev rxRingSize : ℕ := 4096

/-- `sizeof(b)` in `uart_isr`, and `sizeof(chunk)` in `radar_thread`. -/
abbrev uartChunkSize : ℕ := 64

/-- A ring buffer of the size of `rx_rb`. -/
abbrev RxRing (σ : Type) := Fifo UInt8 σ rxRingSize

/-- What `uart_fifo_read` answers, when `uart_irq_rx_ready` has said yes. -/
inductive UartRead where
  | bytes (bs : { bs : List UInt8 // bs.length ≤ uartChunkSize })
  | failed

/-- **The static variables**: `rx_rb` with its books, `rx_total` and `rx_dropped`. -/
structure Uart (σ : Type) where
  rx : Fifo.Booked UInt8 σ
  rxTotal : UInt32
  rxDropped : UInt32

variable {σ : Type} (F : RxRing σ)

namespace Uart

def powerUp : Uart σ := ⟨F.booked, 0, 0⟩

/-- A round of `uart_isr`, on `n > 0` bytes. -/
def accept (u : Uart σ) (bs : List UInt8) : Uart σ where
  rx := F.offer u.rx bs
  rxTotal := u.rxTotal + .ofNat bs.length
  rxDropped := if (F.put u.rx.queue bs).1 < bs.length then u.rxDropped + 1 else u.rxDropped

/-- The loop of `uart_isr`; it ends when the driver is not ready, or at `n <= 0`. -/
def isrLoop (u : Uart σ) : List UartRead → Uart σ
  | [] => u
  | .failed :: _ => u
  | .bytes bs :: reads => if bs.1 = [] then u else (u.accept F bs.1).isrLoop reads

/-- `uart_isr`. -/
def uartIsr (u : Uart σ) (update : Bool) (reads : List UartRead) : Uart σ :=
  if update then u.isrLoop F reads else u

/-- `ring_buf_get` by the thread, of up to `n` bytes. -/
def ringGet (u : Uart σ) (n : ℕ) : List UInt8 × Uart σ :=
  ((F.get u.rx.queue n).1, { u with rx := F.fetch u.rx n })

end Uart

/-- What happens to the ring. -/
inductive UartEvent where
  | isr (update : Bool) (reads : List UartRead)
  | get (n : ℕ)

def Uart.step (u : Uart σ) : UartEvent → Uart σ
  | .isr update reads => u.uartIsr F update reads
  | .get n => (u.ringGet F n).2

def uartMachine : Machine (Uart σ) UartEvent := ⟨Uart.step F⟩

/-- **The thread keeps up**: no more than the ring holds has come in since it last found the ring
empty. -/
def Uart.KeepsUp (u : Uart σ) (e : UartEvent) : Prop := (u.step F e).rx.backlog ≤ rxRingSize

instance (u : Uart σ) (e : UartEvent) : Decidable (u.KeepsUp F e) :=
  inferInstanceAs (Decidable (_ ≤ _))

/-! ## With the thread -/

/-- A step of the interrupt, of the thread, or of the main loop. -/
inductive LinkStep where
  | isr (update : Bool) (reads : List UartRead)
  /-- `ring_buf_get` of one byte, in `cli_drain` or `cli_wait`. -/
  | cliGet
  | configured (rc : ℤ)
  | look
  | push
  | resume
  | take

/-- **The ring and the thread.** An observer notes the calls on `acc`, latest first; what had been
fetched and called when the sensor was last configured; and the bytes pushed and the frames handed
to `on_frame` since. -/
structure RadarLink (σ : Type) where
  uart : Uart σ
  node : RadarNode
  calls : List RadarEvent
  older : List RadarEvent
  before : List UInt8
  pushed : List UInt8
  handed : List (List UInt8)

/-- What a frame said. -/
def RadarEvent.meaning : RadarEvent → Option Decided
  | .frame d _ => some d
  | .take _ => none

namespace RadarLink

def powerUp : RadarLink σ := ⟨.powerUp F, .powerUp, [], [], [], [], []⟩

/-- `radar_configure` returns `rc`. -/
def configured (l : RadarLink σ) (now rc : ℤ) : RadarLink σ :=
  match l.node.pc with
  | .configuring =>
    if rc = 0 then
      { l with
        node := l.node.step (now, .configured rc)
        older := l.calls, before := l.uart.rx.fetched, pushed := [], handed := [] }
    else { l with node := l.node.step (now, .configured rc) }
  | _ => { l with node := l.node.step (now, .configured rc) }

/-- The test of the inner loop, and `ring_buf_get` if it is passed. -/
def look (l : RadarLink σ) (now : ℤ) : RadarLink σ :=
  match l.node.pc with
  | .streaming =>
    if now - l.node.lastFrame < radarStallMs then
      let (chunk, uart) := l.uart.ringGet F uartChunkSize
      { l with uart := uart, node := l.node.step (now, .look chunk) }
    else { l with node := l.node.step (now, .look []) }
  | _ => { l with node := l.node.step (now, .look []) }

/-- The next byte of the chunk goes to `tlv_push`, and a frame it completes to `on_frame`. -/
def push (l : RadarLink σ) (now : ℤ) : RadarLink σ :=
  let node := l.node.step (now, .push)
  match l.node.pc with
  | .pushing (b :: _) =>
    let l := { l with node := node, pushed := l.pushed ++ [b] }
    match node.pc with
    | .counted _ =>
      { l with
        calls := ((decided node.re.frame).map fun d => .frame d now).toList ++ l.calls
        handed := l.handed ++ [node.re.frame] }
    | _ => l
  | _ => { l with node := node }

def step (l : RadarLink σ) (e : ℤ × LinkStep) : RadarLink σ :=
  match e.2 with
  | .isr update reads => { l with uart := l.uart.uartIsr F update reads }
  | .cliGet =>
    match l.node.pc with
    | .configuring => { l with uart := (l.uart.ringGet F 1).2 }
    | _ => l
  | .configured rc => l.configured e.1 rc
  | .look => l.look F e.1
  | .push => l.push e.1
  | .resume => { l with node := l.node.step (e.1, .resume) }
  | .take => { l with node := l.node.step (e.1, .take), calls := .take e.1 :: l.calls }

/-- The thread is through with what has come in. -/
def Idle (l : RadarLink σ) : Prop := l.node.pc = .streaming ∧ F.items l.uart.rx.queue = []

end RadarLink

def linkMachine : Machine (RadarLink σ) (ℤ × LinkStep) := ⟨RadarLink.step F⟩

end PresenceNode
