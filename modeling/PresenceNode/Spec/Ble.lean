import PresenceNode.Spec.Node

/-!
# The dump over BLE (`ble.c`)

`dumpRun` streams one frame: header, records, CRC, cut into notifications. Before each of
its accesses to the store the main loop may run: the schedule says what it does there, and
an exhausted schedule leaves it alone. Taking the lock waits until no append holds it.
-/

namespace PresenceNode

abbrev dumpBufSize : ℕ := 244

def enomem : ℤ := 12
def enotconn : ℤ := 128

/-- One call of `bt_gatt_notify`: what it returns, and whether the link is still there
afterwards. -/
structure Attempt where
  rc : ℤ
  connected : Bool
  deriving DecidableEq, Repr

/-- `notify_chunk`: what it returns, and the attempts left. With none left it is still
waiting. -/
def notifyChunk : List Attempt → Option (ℤ × List Attempt)
  | [] => none
  | a :: as =>
    -- the controller's buffers are full: wait and try again while connected
    if a.rc = -enomem then
      if a.connected then notifyChunk as else some (-enotconn, as)
    else some (a.rc, as)

/-- **The dump thread's view**: the store, what the main loop does before each access, the
attempts to come, and the buffers passed to `notify_chunk`, in order. -/
structure World where
  node : Node SntlRecord
  sched : List (List (MainStep SntlRecord))
  link : List Attempt
  sent : List (List UInt8)

/-- How a dump ends. -/
inductive DumpEnd where
  | done
  | failed
  | waiting
  | overrun
  deriving DecidableEq, Repr

namespace World

/-- The main loop runs as scheduled. -/
def yield (w : World) : World :=
  match w.sched with
  | [] => w
  | steps :: sched => { w with node := w.node.run sntlLayout steps, sched := sched }

/-- A load of `meta.next_seq`. -/
def loadNext (w : World) : UInt32 × World := (storeNextSeq w.yield.node.ram, w.yield)

/-- `store_oldest_seq`, whose two uses of `meta.next_seq` may be two loads. -/
def loadOldest (w : World) : UInt32 × World :=
  let (next, w) := w.loadNext
  let (ring, w) :=
    if next > .ofNat storeCapacity then
      let (next, w) := w.loadNext
      (next - .ofNat storeCapacity, w)
    else (0, w)
  let floor := w.node.ram.floorSeq
  (if floor > ring then floor else ring, w)

/-- `k_mutex_lock`: the main loop runs until it holds no lock. -/
def acquire (w : World) : World :=
  go w.sched w.node
where
  go : List (List (MainStep SntlRecord)) → Node SntlRecord → World
    | [], node => { w with node := node.finish sntlLayout, sched := [] }
    | steps :: sched, node =>
      let node := node.run sntlLayout steps
      match node.pc with
      | .idle => { w with node := node, sched := sched }
      | _ => go sched node

/-- `store_get`. -/
def get (w : World) (seq : UInt32) : Except ℤ SntlRecord × World :=
  let (next, w) := w.loadNext
  if seq ≥ next then (.error (-enoent), w)
  else
    let (oldest, w) := w.loadOldest
    if seq < oldest then (.error (-enoent), w)
    else
      let w := w.acquire
      (storeRead sntlLayout w.node.ram w.node.flash seq, w)

/-- A buffer is passed to `notify_chunk`; a negative answer ends the dump. -/
def notify (w : World) (buf : List UInt8) : World × Option DumpEnd :=
  let w := { w with sent := w.sent ++ [buf] }
  match notifyChunk w.link with
  | none => ({ w with link := [] }, some .waiting)
  | some (rc, link) => ({ w with link := link }, if rc < 0 then some .failed else none)

/-- Before `need` more bytes: if they do not fit in the chunk, send what is there. -/
def flush (w : World) (chunk need : ℕ) (buf : List UInt8) : World × Except DumpEnd (List UInt8) :=
  if buf.length + need > chunk then
    match w.notify buf with
    | (w, some e) => (w, .error e)
    | (w, none) => (w, .ok [])
  else (w, .ok buf)

end World

/-- Bytes are stored at `buf + fill`. -/
def place (buf bytes : List UInt8) : Except DumpEnd (List UInt8) :=
  if buf.length + bytes.length ≤ dumpBufSize then .ok (buf ++ bytes) else .error .overrun

/-- How much a notification may carry. -/
def dumpChunk (mtu : UInt16) : ℕ :=
  let chunk := if mtu.toNat > 3 then mtu.toNat - 3 else 20
  if chunk > dumpBufSize then dumpBufSize else chunk

/-- What is sent for a record that was recycled: flagged, and with no air quality. -/
def faultRecord (seq : UInt32) : SntlRecord where
  seq := seq
  ts := 0
  headcount := 0
  occS := 0
  dwellS := 0
  flags := sntlFlagSensorFault ||| sntlFlagAqFault
  batt := 0
  pm25 := sntlAqUnknownU
  pm10 := sntlAqUnknownU
  temp := sntlAqUnknownS
  rh := sntlAqUnknownS
  voc := sntlAqUnknownS

/-- The seqs of `for (seq = start; seq < stop; seq++)`. -/
def seqRange (start stop : UInt32) : List UInt32 :=
  (List.range (stop.toNat - start.toNat)).map fun i => start + .ofNat i

/-- The record a dump sends for what `store_get` answered. -/
def recordOf (seq : UInt32) : Except ℤ SntlRecord → SntlRecord
  | .ok rec => rec
  | .error _ => faultRecord seq

/-- The loop over the records; `buf` is the filled part of the buffer. -/
def dumpLoop (chunk : ℕ) : List UInt32 → UInt16 → List UInt8 → World →
    World × Except DumpEnd (UInt16 × List UInt8)
  | [], crc, buf, w => (w, .ok (crc, buf))
  | seq :: seqs, crc, buf, w =>
    let (answer, w) := w.get seq
    let out := recordOf seq answer
    match w.flush chunk sntlRecordSize buf with
    | (w, .error e) => (w, .error e)
    | (w, .ok buf) =>
      match place buf (sntlEncodeRecord out) with
      | .error e => (w, .error e)
      | .ok buf => dumpLoop chunk seqs (sntlCrc16 crc (sntlEncodeRecord out)) buf w

/-- The two bytes of the CRC. -/
def crcBytes (crc : UInt16) : List UInt8 := [crc.toUInt8, (crc >>> 8).toUInt8]

/-- The end of `dump_run`: the CRC, and what is left in the buffer. -/
def dumpTrailer (chunk : ℕ) (crc : UInt16) (buf : List UInt8) (w : World) : World × DumpEnd :=
  -- the CRC goes to the next chunk if it does not fit this one
  match w.flush chunk sntlCrcSize buf with
  | (w, .error e) => (w, e)
  | (w, .ok buf) =>
    match place buf (crcBytes crc) with
    | .error e => (w, e)
    | .ok buf =>
      match w.notify buf with
      | (w, some e) => (w, e)
      | (w, none) => (w, .done)

/-- `dump_run` once the header is in the buffer: the records and the CRC. -/
def dumpRest (chunk : ℕ) (seqs : List UInt32) (crc : UInt16) (buf : List UInt8) (w : World) :
    World × DumpEnd :=
  match dumpLoop chunk seqs crc buf w with
  | (w, .error e) => (w, e)
  | (w, .ok (crc, buf)) => dumpTrailer chunk crc buf w

/-- The range a dump answers with. C leaves open which of the two arguments is read
first. -/
def dumpRange (nextFirst : Bool) (firstSeq : UInt32) (w : World) : (UInt16 × UInt32) × World :=
  if nextFirst then
    let (next, w) := w.loadNext
    let (oldest, w) := w.loadOldest
    (sntlDumpRange firstSeq oldest next, w)
  else
    let (oldest, w) := w.loadOldest
    let (next, w) := w.loadNext
    (sntlDumpRange firstSeq oldest next, w)

/-- `dump_run`. -/
def dumpRun (deviceId : List UInt8) (mtu : UInt16) (nextFirst : Bool) (firstSeq : UInt32)
    (w : World) : World × DumpEnd :=
  let ((count, start), w) := dumpRange nextFirst firstSeq w
  let chunk := dumpChunk mtu
  let header := sntlEncodeHeader count deviceId
  dumpRest chunk (seqRange start (start + count.toUInt32)) (sntlCrc16 0xFFFF header) header w

end PresenceNode
