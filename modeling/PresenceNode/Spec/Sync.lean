import PresenceNode.Lib.Machine
import PresenceNode.Spec.Ble
import PresenceNode.Spec.Reader

/-!
# A client that syncs

The client keeps a cursor, asks from it, and moves it past the records of every complete
frame. Meanwhile the main loop appends. The ring may have any size: `loadOldestOf` and
`readRange` are the two reads of `dump_run` over a ring of `cap` slots.
-/

namespace PresenceNode

namespace World

/-- `store_oldest_seq` over a ring of `cap` slots. -/
def loadOldestOf (cap : UInt32) (w : World) : UInt32 × World :=
  let (next, w) := w.loadNext
  let (ring, w) :=
    if next > cap then
      let (next, w) := w.loadNext
      (next - cap, w)
    else (0, w)
  let floor := w.node.ram.floorSeq
  (if floor > ring then floor else ring, w)

/-- The two unlocked reads of `dump_run`, in either order: the oldest seq and the next. -/
def readRange (cap : UInt32) (nextFirst : Bool) (w : World) : (UInt32 × UInt32) × World :=
  if nextFirst then
    let (next, w) := w.loadNext
    let (oldest, w) := w.loadOldestOf cap
    ((oldest, next), w)
  else
    let (oldest, w) := w.loadOldestOf cap
    let (next, w) := w.loadNext
    ((oldest, next), w)

end World

/-- **A device id**: at most 8 characters, none of them NUL. -/
structure DeviceId where
  chars : List UInt8
  length_le : chars.length ≤ sntlDeviceIdLen
  nonzero : 0 ∉ chars

/-- **A dump the client got whole**: what it asked from, what `dump_run` read, the bytes, and
where the cursor stands afterwards. -/
structure Exchange where
  asked : UInt32
  oldest : UInt32
  next : UInt32
  frame : List UInt8
  after : UInt32

/-- The seqs in a frame. -/
def Exchange.seqs (x : Exchange) : List UInt32 :=
  match readFrame x.frame with
  | some (_, recs) => recs.map SntlRecord.seq
  | none => []

/-- The client's cursor after a frame: past its records, if it has any. -/
def clientCursor (cursor : UInt32) (frame : List UInt8) : UInt32 :=
  match readFrame frame with
  | some (_, rec :: recs) => rec.seq + .ofNat (recs.length + 1)
  | _ => cursor

/-- The record a dump places for each seq, stored or not. -/
abbrev Placing : Type := (seq : UInt32) → { rec : SntlRecord // rec.seq = seq }

/-- The node, the client's cursor, and the exchanges so far, latest first. -/
structure Sync where
  node : Node SntlRecord
  cursor : UInt32
  exchanges : List Exchange

inductive SyncEvent where
  /-- A step of the main loop. -/
  | main (step : MainStep SntlRecord)
  /-- A complete dump: what the main loop does around its two reads, which of them comes
  first, and the records it places. -/
  | dump (sched : List (List (MainStep SntlRecord))) (nextFirst : Bool) (place : Placing)

/-- The frame of a dump that starts at `start`. -/
def placedFrame (deviceId : DeviceId) (count : UInt16) (start : UInt32) (place : Placing) :
    List UInt8 :=
  wireFrame deviceId.chars
    ((seqRange start (start + count.toUInt32)).map fun seq => (place seq).1)

def Sync.step (cap : UInt32) (deviceId : DeviceId) (s : Sync) : SyncEvent → Sync
  | .main step => { s with node := s.node.step sntlLayout step }
  | .dump sched nextFirst place =>
    let ((oldest, next), w) := World.readRange cap nextFirst ⟨s.node, sched, [], []⟩
    let (count, start) := sntlDumpRange s.cursor oldest next
    let frame := placedFrame deviceId count start place
    let cursor := clientCursor s.cursor frame
    ⟨w.node, cursor, ⟨s.cursor, oldest, next, frame, cursor⟩ :: s.exchanges⟩

/-- A store of `cap` slots, and its client. -/
def syncMachine (cap : UInt32) (deviceId : DeviceId) : Machine Sync SyncEvent :=
  ⟨Sync.step cap deviceId⟩

/-- **A dump over the air is an exchange** of `s`: it left the node and the bytes that a
complete dump and some steps of the main loop leave. -/
def IsExchange (deviceId : DeviceId) (s : Sync) (sched : List (List (MainStep SntlRecord)))
    (nextFirst : Bool) (node : Node SntlRecord) (bytes : List UInt8) : Prop :=
  ∃ (place : Placing) (steps : List (MainStep SntlRecord)) (x : Exchange),
    (syncMachine (.ofNat storeCapacity) deviceId).run s
        (.dump sched nextFirst place :: steps.map .main) =
      ⟨node, clientCursor s.cursor bytes, x :: s.exchanges⟩ ∧ x.frame = bytes

/-! ## What a client may rely on -/

/-- **One exchange is exact.** -/
structure Exchange.Exact (x : Exchange) : Prop where
  /-- The frame is one that a reader accepts. -/
  readable : Readable x.frame
  consecutive : ∃ start, x.seqs.map UInt32.toNat = List.range' start x.seqs.length
  /-- What was asked for and held is there, or still ahead of the cursor if there was too
  much of it. -/
  complete : ∀ seq : UInt32, x.asked ≤ seq → x.oldest ≤ seq → seq < x.next →
    seq ∈ x.seqs ∨ (65535 < x.next.toNat - max x.asked.toNat x.oldest.toNat ∧ x.after ≤ seq)
  /-- What the cursor passes is there, or was no longer held. -/
  passed : ∀ seq : UInt32, x.asked ≤ seq → seq < x.after → seq ∈ x.seqs ∨ seq < x.oldest
  /-- The cursor passes what is there. -/
  within : ∀ seq ∈ x.seqs, x.asked ≤ seq ∧ seq < x.after
  forward : x.asked ≤ x.after

/-- Each exchange asks from where the one before it ended; the first from `c`. -/
def Linked (c : UInt32) : List Exchange → UInt32 → Prop
  | [], cursor => cursor = c
  | x :: xs, cursor => cursor = x.after ∧ Linked c xs x.asked

/-- **A sync neither skips nor repeats.** -/
structure Sync.Exact (c : UInt32) (s : Sync) : Prop where
  each : ∀ x ∈ s.exchanges, x.Exact
  disjoint : s.exchanges.Pairwise fun x y => x.seqs.Disjoint y.seqs
  linked : Linked c s.exchanges s.cursor

end PresenceNode
