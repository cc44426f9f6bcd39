import PresenceNode.Lib.Delimited
import PresenceNode.Spec.Session
import PresenceNode.Spec.Sync

/-!
# The app's end of a connection

There is no framing inside a notification: the app puts the notifications of a connection
together and finds the end of each frame by the record count in its header (`dump_run`).
-/

namespace PresenceNode

theorem header_lt_frame (bs : List UInt8) : sntlHeaderSize < sntlFrameSize (u16At bs 6) := by
  unfold sntlFrameSize
  simp only [sntlHeaderSize, sntlRecordSize, sntlCrcSize]
  omega

theorem frameSize_take (bs : List UInt8) :
    sntlFrameSize (u16At (bs.take sntlHeaderSize) 6) = sntlFrameSize (u16At bs 6) := by
  have hbytes : ((bs.take sntlHeaderSize).drop 6).take 2 = (bs.drop 6).take 2 := by
    rw [List.drop_take, List.take_take]
    rfl
  unfold u16At
  rw [hbytes]

/-- **A frame says its own length.** -/
def sntlDelimited : Delimited UInt8 where
  head := sntlHeaderSize
  size bs := sntlFrameSize (u16At bs 6)
  head_lt := header_lt_frame
  size_take := frameSize_take

namespace Session

/-- **What the app has of connection `m`**: whole frames, and what is left. -/
def app (s : Session) (m : ℕ) : List (List UInt8) × List UInt8 :=
  (s.notificationsOn m).foldl sntlDelimited.receive ([], [])

/-- A frame reads as records with consecutive seqs, from the one that `c` asked for or later. -/
def Reads (deviceId : DeviceId) (c : Command) (frame : List UInt8) : Prop :=
  ∃ (recs : List SntlRecord) (start : ℕ), readFrame frame = some (deviceId.chars, recs) ∧
    recs.map (fun r => r.seq.toNat) = List.range' start recs.length ∧
    (recs ≠ [] → c.firstSeq.toNat ≤ start)

/-- **The app makes out what it asked for.** -/
structure AppReads (deviceId : DeviceId) (s : Session) (m : ℕ) : Prop where
  frames : ∀ frame ∈ (s.app m).1, ∃ c ∈ s.accepted, c.conn = m ∧ Reads deviceId c frame
  /-- What is left is the beginning of one more. -/
  rest : (s.app m).2 = [] ∨ ∃ c ∈ s.accepted, c.conn = m ∧ ∃ frame, Reads deviceId c frame ∧
    (s.app m).2 <+: frame ∧ (s.app m).2 ≠ frame
  /-- No byte is skipped. -/
  all : (s.app m).1.flatten ++ (s.app m).2 = s.bytesOn m

end Session

end PresenceNode
