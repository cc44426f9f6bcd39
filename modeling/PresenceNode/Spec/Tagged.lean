import PresenceNode.Spec.Ble
import PresenceNode.Spec.Flush
import PresenceNode.Spec.Life

/-!
# The tags of a record on the wire

What a record has to say about itself, the runs in which every stored record comes from
`windowFlush`, and the records a dump places in its frame.
-/

namespace PresenceNode

/-- **A record is tagged**: its `ts` is not to be trusted, and a headcount without the radar
does not come from the tracker. -/
def SntlRecord.Tagged (rec : SntlRecord) : Prop :=
  rec.Has sntlFlagRtcUnset ∧ (rec.Has sntlFlagSensorFault → rec.Has sntlFlagNoTracker)

instance (rec : SntlRecord) : Decidable rec.Tagged := inferInstanceAs (Decidable (_ ∧ (_ → _)))

/-- The 16-bit frame counter of the current window has not come round to 0 over a tracked
frame. -/
def Unwrapped (past : List SensorEvent) : Prop :=
  (sinceTake (radarPast past)).length % 65536 = 0 →
    ∀ d ∈ sinceTake (radarPast past), d.tracker = false

/-- **A record of this firmware**: `window_flush` made it, after some history. -/
inductive Flushed : SntlRecord → Prop where
  | flush (ready : Bool) (cmd : ℤ) (past : List SensorEvent) (now : ℤ) (status : Transfer)
      (h : Unwrapped past) :
      Flushed (windowFlush (sensorsAfter (sen5xStart ready cmd).2 past) now status).1

/-- What is appended comes from `window_flush`. -/
def Event.Flushed : Event SntlRecord → Prop
  | .append rec _ _ => PresenceNode.Flushed rec
  | _ => True

def MainStep.Flushed : MainStep SntlRecord → Prop
  | .append rec _ => PresenceNode.Flushed rec
  | _ => True

/-- The seqs whose records the loop of a dump places in the frame, and what `store_get`
answered for each. -/
def dumpPlaced (chunk : ℕ) : List UInt32 → List UInt8 → World →
    List (UInt32 × Except ℤ SntlRecord)
  | [], _, _ => []
  | seq :: seqs, buf, w =>
    let (answer, w) := w.get seq
    match w.flush chunk sntlRecordSize buf with
    | (_, .error _) => []
    | (w, .ok buf) =>
      match place buf (sntlEncodeRecord (recordOf seq answer)) with
      | .error _ => []
      | .ok buf => (seq, answer) :: dumpPlaced chunk seqs buf w

/-- Those of a whole dump. -/
def dumpAnswers (deviceId : List UInt8) (mtu : UInt16) (nextFirst : Bool) (firstSeq : UInt32)
    (w : World) : List (UInt32 × Except ℤ SntlRecord) :=
  let ((count, start), w) := dumpRange nextFirst firstSeq w
  dumpPlaced (dumpChunk mtu) (seqRange start (start + count.toUInt32))
    (sntlEncodeHeader count deviceId) w

/-- **The records of the frame.** -/
def dumpRecords (deviceId : List UInt8) (mtu : UInt16) (nextFirst : Bool) (firstSeq : UInt32)
    (w : World) : List SntlRecord :=
  (dumpAnswers deviceId mtu nextFirst firstSeq w).map fun p => recordOf p.1 p.2

/-- **A dump in the life of a node**: it begins after some steps of the main loop, which then
goes on as scheduled. -/
def Life.dumping (l : Life SntlRecord) (ram : Ram) (before : List (MainStep SntlRecord))
    (sched : List (List (MainStep SntlRecord))) (link : List Attempt) : World :=
  ⟨Node.run sntlLayout ⟨l.flash, ram, .idle, []⟩ before, sched, link, []⟩

end PresenceNode
