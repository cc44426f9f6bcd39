import PresenceNode.Lib.Machine
import PresenceNode.Spec.Ble

/-!
# Connections, dump commands and the dump thread (`ble.c`)

The Bluetooth thread runs `connected`, `disconnected`, `ccc_changed` and `ctrl_write`, one
at a time; `dump_thread` runs beside it. They share `current_conn`, `notify_enabled`,
`dump_first_seq` and the binary semaphore `dump_req`, and every access to one of these is a
step of its own.

There is one connection object, used again by the next connection, so a pointer to it only
says whether there is one.
-/

namespace PresenceNode

abbrev btAttErrInvalidOffset : ℤ := 0x07
abbrev btAttErrValueNotAllowed : ℤ := 0x13
abbrev btGattCccNotify : UInt16 := 1

/-- `ctrl_write` up to its first store: the parsed seq, or the error it returns. -/
def ctrlWrite (offset : UInt16) (buf : List UInt8) : Except ℤ UInt32 :=
  if offset ≠ 0 then .error (-btAttErrInvalidOffset)
  else
    match sntlParseCmd buf with
    | none => .error (-btAttErrValueNotAllowed)
    | some firstSeq => .ok firstSeq

/-- What a dump meets besides the link: the MTU, the store and the main loop. -/
structure DumpInput where
  mtu : UInt16
  nextFirst : Bool
  node : Node SntlRecord
  sched : List (List (MainStep SntlRecord))

/-- A link that takes every notification of a dump. -/
def acceptAll : List Attempt := List.replicate (2 ^ 16 + 1) ⟨0, true⟩

/-- The buffers `dump_run` passes to `notify_chunk`, unless one fails before. -/
def dumpBuffers (deviceId : List UInt8) (firstSeq : UInt32) (d : DumpInput) : List (List UInt8) :=
  (dumpRun deviceId d.mtu d.nextFirst firstSeq ⟨d.node, d.sched, acceptAll, []⟩).1.sent

/-- A dump command that `ctrl_write` accepted, and the connection it came on. -/
structure Command where
  conn : ℕ
  firstSeq : UInt32
  deriving DecidableEq, Repr

/-- The `dump_first_seq` that the dump thread read, and how many commands had been accepted
when it did. -/
structure Job where
  firstSeq : UInt32
  stamp : ℕ
  deriving DecidableEq, Repr

/-- A call of `dump_run`: what it was asked for, and what it meets. -/
structure Dump where
  job : Job
  input : DumpInput

/-- A frame on its way: the number of its dump, the buffers that are gone, and those to come. -/
structure Outgoing where
  job : Job
  number : ℕ
  gone : List (List UInt8)
  rest : List (List UInt8)
  deriving DecidableEq, Repr

/-- What the Bluetooth thread is at: no connection, one whose `connected` is still to come,
one in use, `ctrl_write` before its `k_sem_give`, or `disconnected` before it clears
`current_conn`. -/
inductive BtPc where
  | down
  | connecting
  | idle
  | giving
  | leaving
  deriving DecidableEq, Repr

/-- What `dump_thread` is at: its `k_sem_take`, the two tests of its `if`, the arguments of
`dump_run`, `bt_gatt_notify`, or the test after `k_msleep`. `halted` is a null connection. -/
inductive DumpPc where
  | waiting
  | taken
  | connSeen
  | args (conn : Bool) (job : Option Job)
  | sending (out : Outgoing)
  | sleeping (out : Outgoing)
  | halted
  deriving DecidableEq, Repr

/-- A notification that was taken: the connection it went to, and the dump it is of. -/
structure Piece where
  conn : ℕ
  number : ℕ
  buf : List UInt8
  deriving DecidableEq, Repr

/-- **The state.** `link` is whether the latest connection, number `conn`, is up, and `torn`
whether a frame was cut short on it. What was accepted, begun, streamed and received is kept in
order; a dump's number is its place in `dumps`. -/
structure Session where
  link : Bool
  conn : ℕ
  bt : BtPc
  currentConn : Bool
  notifyEnabled : Bool
  dumpReq : Bool
  dumpFirstSeq : UInt32
  thread : DumpPc
  torn : Bool
  accepted : List Command
  dumps : List Dump
  streamed : List Job
  received : List Piece

inductive SessionEvent where
  /-- A central connects. -/
  | linkUp
  /-- `connected`, without an error. -/
  | connected
  /-- The link goes down. -/
  | linkDown
  /-- `disconnected` clears `notify_enabled`. -/
  | disconnected
  /-- It clears `current_conn`. -/
  | unref
  | cccChanged (value : UInt16)
  | ctrlWrite (offset : UInt16) (buf : List UInt8)
  /-- The `k_sem_give` of `ctrl_write`. -/
  | give
  /-- The `k_sem_take` of `dump_thread`. -/
  | take
  /-- The next test of `current_conn && notify_enabled`. -/
  | look
  /-- The first argument of `dump_run` is read. -/
  | loadConn
  /-- The second one is. C leaves their order open. -/
  | loadSeq
  /-- `dump_run` begins. -/
  | start (d : DumpInput)
  /-- `bt_gatt_notify` returns `rc`. -/
  | notify (rc : ℤ)
  /-- `k_msleep` returns. -/
  | wake

namespace Session

/-- Before the first connection. -/
def off : Session where
  link := false
  conn := 0
  bt := .down
  currentConn := false
  notifyEnabled := false
  dumpReq := false
  dumpFirstSeq := 0
  thread := .waiting
  torn := false
  accepted := []
  dumps := []
  streamed := []
  received := []

/-- `ctrl_write` stores an accepted seq; the semaphore is still to be given. -/
def accept (s : Session) (firstSeq : UInt32) : Session :=
  { s with
    dumpFirstSeq := firstSeq, bt := .giving, accepted := s.accepted ++ [⟨s.conn, firstSeq⟩] }

/-- A notification of `notify_chunk` was taken. -/
def deliver (s : Session) (out : Outgoing) : Session :=
  match out.rest with
  | [] => { s with thread := .waiting }
  | [buf] =>
    { s with
      thread := .waiting, received := s.received ++ [⟨s.conn, out.number, buf⟩],
      streamed := s.streamed ++ [out.job] }
  | buf :: rest =>
    { s with
      thread := .sending { out with gone := out.gone ++ [buf], rest := rest },
      received := s.received ++ [⟨s.conn, out.number, buf⟩] }

/-- `dump_run` returns inside its frame. -/
def cut (s : Session) (out : Outgoing) : Session :=
  { s with thread := .waiting, torn := s.torn || decide (out.gone ≠ []) }

/-- What `bt_gatt_notify` returns: a failure if the link is down. -/
def notifyRc (s : Session) (rc : ℤ) : ℤ := if s.link ∨ rc < 0 then rc else -enotconn

/-- A round of `notify_chunk`. -/
def notified (s : Session) (out : Outgoing) (rc : ℤ) : Session :=
  if s.notifyRc rc = -enomem then { s with thread := .sleeping out }
  else if s.notifyRc rc < 0 then s.cut out
  else s.deliver out

/-- A step of `dump_thread`. -/
def dumpThread (deviceId : List UInt8) (s : Session) : SessionEvent → Session
  | .take =>
    match s.thread with
    | .waiting => if s.dumpReq then { s with thread := .taken, dumpReq := false } else s
    | _ => s
  | .look =>
    match s.thread with
    | .taken => { s with thread := if s.currentConn then .connSeen else .waiting }
    | .connSeen => { s with thread := if s.notifyEnabled then .args false none else .waiting }
    | _ => s
  | .loadConn =>
    match s.thread with
    -- the null pointer goes to `bt_gatt_get_mtu`: undefined
    | .args false job => { s with thread := if s.currentConn then .args true job else .halted }
    | _ => s
  | .loadSeq =>
    match s.thread with
    | .args conn none =>
      { s with thread := .args conn (some ⟨s.dumpFirstSeq, s.accepted.length⟩) }
    | _ => s
  | .start d =>
    match s.thread with
    | .args true (some job) =>
      { s with
        thread := .sending ⟨job, s.dumps.length, [], dumpBuffers deviceId job.firstSeq d⟩,
        dumps := s.dumps ++ [⟨job, d⟩] }
    | _ => s
  | .notify rc =>
    match s.thread with
    | .sending out => s.notified out rc
    | _ => s
  | .wake =>
    match s.thread with
    | .sleeping out => if s.currentConn then { s with thread := .sending out } else s.cut out
    | _ => s
  | _ => s

def step (deviceId : List UInt8) (s : Session) : SessionEvent → Session
  | .linkUp =>
    if s.bt = .down then
      { s with bt := .connecting, link := true, conn := s.conn + 1, torn := false }
    else s
  | .connected => if s.bt = .connecting then { s with bt := .idle, currentConn := true } else s
  | .linkDown => { s with link := false }
  | .disconnected =>
    if s.bt = .idle ∧ s.link = false then { s with bt := .leaving, notifyEnabled := false } else s
  | .unref => if s.bt = .leaving then { s with bt := .down, currentConn := false } else s
  | .cccChanged value =>
    if s.bt = .idle then { s with notifyEnabled := value = btGattCccNotify } else s
  | .ctrlWrite offset buf =>
    if s.bt = .idle then
      match PresenceNode.ctrlWrite offset buf with
      | .ok firstSeq => s.accept firstSeq
      | .error _ => s
    else s
  | .give => if s.bt = .giving then { s with bt := .idle, dumpReq := true } else s
  | e => s.dumpThread deviceId e

end Session

def sessionMachine (deviceId : List UInt8) : Machine Session SessionEvent :=
  ⟨Session.step deviceId⟩

namespace DumpPc

/-- The job the thread has read. -/
def job : DumpPc → Option Job
  | args _ job => job
  | sending out => some out.job
  | sleeping out => some out.job
  | _ => none

/-- The frame under way. -/
def out : DumpPc → Option Outgoing
  | sending out => some out
  | sleeping out => some out
  | _ => none

/-- `dump_run` is being called, or runs. -/
def Dumping : DumpPc → Prop
  | args _ _ => True
  | sending _ => True
  | sleeping _ => True
  | _ => False

instance : (pc : DumpPc) → Decidable pc.Dumping
  | waiting | taken | connSeen | halted => isFalse id
  | args _ _ | sending _ | sleeping _ => isTrue trivial

end DumpPc

/-- A frame: the number of its dump, and its buffers. -/
structure Frame where
  number : ℕ
  bufs : List (List UInt8)

/-- The notifications of a frame on connection `m`. -/
def Frame.pieces (f : Frame) (m : ℕ) : List Piece := f.bufs.map fun buf => ⟨m, f.number, buf⟩

namespace Session

/-! ## Frames go to the connection that asked -/

/-- The notifications on connection `m`, in order. -/
def piecesOn (s : Session) (m : ℕ) : List Piece := s.received.filter fun p => p.conn = m

/-- What they carry. -/
def notificationsOn (s : Session) (m : ℕ) : List (List UInt8) := (s.piecesOn m).map Piece.buf

/-- The bytes received on connection `m`. -/
def bytesOn (s : Session) (m : ℕ) : List UInt8 := (s.notificationsOn m).flatten

/-- The command that a job answers, the latest one when its seq was read, came on
connection `m`. -/
def AskedOn (s : Session) (m : ℕ) (j : Job) : Prop :=
  j.stamp ≤ s.accepted.length ∧ ∃ c, (s.accepted.take j.stamp).getLast? = some c ∧
    c.conn = m ∧ c.firstSeq = j.firstSeq

/-- **A frame that connection `m` asked for**: the command that its dump answers came on `m`,
and its buffers are those that this dump handed over, one frame of the wire format. -/
def FrameOn (deviceId : List UInt8) (s : Session) (m : ℕ) (f : Frame) : Prop :=
  ∃ d, s.dumps[f.number]? = some d ∧ s.AskedOn m d.job ∧
    f.bufs = dumpBuffers deviceId d.job.firstSeq d.input ∧
    ∃ recs, recs.length < 2 ^ 16 ∧ f.bufs.flatten = wireFrame deviceId recs

/-- **What a connection receives**: frames it asked for, one after the other, the last one
possibly cut short. Every notification is of the dump of its frame. -/
def Delivered (deviceId : List UInt8) (s : Session) (m : ℕ) : Prop :=
  ∃ (frames : List Frame) (tail : List Piece),
    s.piecesOn m = frames.flatMap (·.pieces m) ++ tail ∧
    (∀ f ∈ frames, s.FrameOn deviceId m f) ∧
    (tail = [] ∨ ∃ f, s.FrameOn deviceId m f ∧ tail <+: f.pieces m)

/-- A request waits to be answered, or for the test of the `if`. -/
def Pending (s : Session) : Prop :=
  s.dumpReq = true ∨ s.thread = .taken ∨ s.thread = .connSeen

/-- A request is pending, and the latest command came on an earlier connection. -/
def Stale (s : Session) : Prop :=
  s.Pending ∧ s.accepted.getLast?.map Command.conn ≠ some s.conn

instance (s : Session) : Decidable s.Stale :=
  inferInstanceAs (Decidable ((_ ∨ _ ∨ _) ∧ _ ≠ _))

/-- **What an event must not do**: bring a link up while `dump_run` runs, enable
notifications while a request of an earlier connection is pending, or begin a frame on a link
on which one was cut short. -/
def Calm (s : Session) : SessionEvent → Prop
  | .linkUp => s.bt = .down → ¬ s.thread.Dumping
  | .cccChanged value => value = btGattCccNotify → ¬ s.Stale
  | .start _ => s.link = true → s.torn = false
  | _ => True

instance (s : Session) (e : SessionEvent) : Decidable (s.Calm e) :=
  match e with
  | .linkUp => inferInstanceAs (Decidable (s.bt = .down → ¬ s.thread.Dumping))
  | .cccChanged value => inferInstanceAs (Decidable (value = btGattCccNotify → ¬ s.Stale))
  | .start _ => inferInstanceAs (Decidable (s.link = true → s.torn = false))
  | .connected | .linkDown | .disconnected | .unref | .ctrlWrite _ _ | .give | .take
  | .look | .loadConn | .loadSeq | .notify _ | .wake => isTrue trivial

/-! ## Every command is answered -/

/-- A central has connected and subscribed; whatever was asked before is answered. -/
def subscribed (conn : ℕ) (dumpFirstSeq : UInt32) : Session :=
  { off with
    link := true, conn := conn, bt := .idle, currentConn := true, notifyEnabled := true,
    dumpFirstSeq := dumpFirstSeq }

/-- The link stays connected and subscribed, and takes notifications when it has buffers. -/
def Stays (_ : Session) : SessionEvent → Prop
  | .linkDown => False
  | .cccChanged value => value = btGattCccNotify
  | .notify rc => 0 ≤ rc ∨ rc = -enomem
  | _ => True

instance (s : Session) (e : SessionEvent) : Decidable (s.Stays e) :=
  match e with
  | .linkDown => isFalse id
  | .cccChanged value => inferInstanceAs (Decidable (value = btGattCccNotify))
  | .notify rc => inferInstanceAs (Decidable (0 ≤ rc ∨ rc = -enomem))
  | .linkUp | .connected | .disconnected | .unref | .ctrlWrite _ _ | .give | .take
  | .look | .loadConn | .loadSeq | .start _ | .wake => isTrue trivial

/-- The dump thread waits, and no request is pending or about to be. -/
def Quiet (s : Session) : Prop := s.thread = .waiting ∧ s.dumpReq = false ∧ s.bt ≠ .giving

instance (s : Session) : Decidable s.Quiet :=
  inferInstanceAs (Decidable (s.thread = .waiting ∧ s.dumpReq = false ∧ s.bt ≠ .giving))

/-- The link stays, and no command comes before the one before it is answered. -/
def OneByOne (s : Session) : SessionEvent → Prop
  | .ctrlWrite _ _ => s.Quiet
  | e => s.Stays e

instance (s : Session) (e : SessionEvent) : Decidable (s.OneByOne e) :=
  match e with
  | .linkDown => isFalse id
  | .ctrlWrite _ _ => inferInstanceAs (Decidable s.Quiet)
  | .cccChanged value => inferInstanceAs (Decidable (value = btGattCccNotify))
  | .notify rc => inferInstanceAs (Decidable (0 ≤ rc ∨ rc = -enomem))
  | .linkUp | .connected | .disconnected | .unref | .give | .take | .look | .loadConn
  | .loadSeq | .start _ | .wake => isTrue trivial

/-- Every accepted command is answered once, with its own seq. -/
def AnsweredOnce (s : Session) : Prop :=
  (s.streamed.map Job.firstSeq).Perm (s.accepted.map Command.firstSeq)

instance (s : Session) : Decidable s.AnsweredOnce :=
  inferInstanceAs (Decidable (List.Perm _ _))

/-- **What commands get**: no more frames than there are commands; each frame answers the
latest command of its time; and the last command has one. -/
structure Answered (s : Session) : Prop where
  atMost : s.streamed.length ≤ s.accepted.length
  latest : ∀ j ∈ s.streamed, j.stamp ≤ s.accepted.length ∧
    ∃ c, (s.accepted.take j.stamp).getLast? = some c ∧ c.firstSeq = j.firstSeq
  inOrder : (s.streamed.map Job.stamp).Pairwise (· ≤ ·)
  last : s.accepted ≠ [] → ∃ j, s.streamed.getLast? = some j ∧ j.stamp = s.accepted.length

end Session

end PresenceNode
