import PresenceNode.Lib.Mailbox
import PresenceNode.Proof.Session

/-!
# What dump commands are answered with

* `Open`: the link is up, subscribed, and known to be.
* `Session.mailbox`: `dump_first_seq` and `dump_req` are a mailbox; `step_turn`: on a link
  that stays, every event is an event of the mailbox, or none.
* `answers_last`: so the frames answer the latest commands, and the last one; if no command
  comes before the one before it is answered, they answer each.
* `answers_merge`: two commands before the first is read share a frame.
-/

namespace PresenceNode

variable {deviceId : List UInt8}

/-- What the dump thread is at, for the mailbox. -/
def DumpPc.phase : DumpPc → MailPhase UInt32
  | waiting => .waiting
  | taken => .taken
  | connSeen => .taken
  | args _ none => .taken
  | args _ (some job) => .holding job.firstSeq job.stamp
  | sending out => .holding out.job.firstSeq out.job.stamp
  | sleeping out => .holding out.job.firstSeq out.job.stamp
  | halted => .waiting

namespace Session

/-- An answer of the mailbox. -/
def jobOf (j : Job) : UInt32 × ℕ := (j.firstSeq, j.stamp)

/-- **The request as a mailbox**: `dump_first_seq` is the variable, `dump_req` the semaphore. -/
def mailbox (s : Session) : Mailbox UInt32 where
  slot := s.dumpFirstSeq
  posted := s.accepted.map Command.firstSeq
  giving := s.bt = .giving
  flag := s.dumpReq
  phase := s.thread.phase
  answers := s.streamed.map jobOf

/-- A link that is up, subscribed, and known to be. -/
structure Open (s : Session) : Prop where
  link : s.link = true
  currentConn : s.currentConn = true
  notifyEnabled : s.notifyEnabled = true
  bt : s.bt = .idle ∨ s.bt = .giving
  going : Going s.thread

theorem subscribed_open (conn : ℕ) (dumpFirstSeq : UInt32) :
    Open (subscribed conn dumpFirstSeq) :=
  ⟨rfl, rfl, rfl, Or.inl rfl, going_none rfl⟩

/-- What an event does to an open session, and to its mailbox. -/
structure Turn (s : Session) (e : SessionEvent) (s' : Session) : Prop where
  opened : Open s'
  mail : ∃ evs, (mailboxMachine UInt32).run s.mailbox evs = s'.mailbox ∧
    (s.OneByOne e → (mailboxMachine UInt32).Guarded Mailbox.Serial s.mailbox evs)

theorem quiet_mailbox {s : Session} (h : s.Quiet) : s.mailbox.Quiet := by
  obtain ⟨hpc, hreq, hbt⟩ := h
  refine ⟨?_, hreq, decide_eq_false hbt⟩
  unfold mailbox
  rw [hpc]
  rfl

section Turn

variable {s : Session} {e : SessionEvent}

/-- Nothing happens to the mailbox. -/
theorem turn_same {s' : Session} (hopen : Open s') (h : s'.mailbox = s.mailbox) :
    Turn s e s' :=
  ⟨hopen, [], h.symm, fun _ => trivial⟩

/-- The dump thread goes on, and has read what it had read. -/
theorem turn_thread (h : Open s) {pc : DumpPc} {dumps : List Dump} (hgoing : Going pc)
    (hphase : pc.phase = s.thread.phase) : Turn s e { s with thread := pc, dumps := dumps } := by
  refine turn_same ⟨h.link, h.currentConn, h.notifyEnabled, h.bt, hgoing⟩ ?_
  unfold mailbox
  simp only
  rw [hphase]

theorem accept_turn (h : Open s) (hbt : s.bt = .idle) {offset : UInt16}
    {buf : List UInt8} (firstSeq : UInt32) :
    Turn s (.ctrlWrite offset buf) (s.accept firstSeq) := by
  refine ⟨⟨h.link, h.currentConn, h.notifyEnabled, Or.inr rfl, h.going⟩, [.post firstSeq], ?_, ?_⟩
  · simp [mailboxMachine, Mailbox.step, mailbox, accept, hbt]
  · intro hone
    exact ⟨quiet_mailbox hone, trivial⟩

theorem give_turn (h : Open s) (hbt : s.bt = .giving) :
    Turn s .give { s with bt := .idle, dumpReq := true } := by
  refine ⟨⟨h.link, h.currentConn, h.notifyEnabled, Or.inl rfl, h.going⟩, [.give], ?_, ?_⟩
  · simp [mailboxMachine, Mailbox.step, mailbox, hbt]
  · exact fun _ => ⟨trivial, trivial⟩

theorem take_turn (h : Open s) (hpc : s.thread = .waiting) (hreq : s.dumpReq = true) :
    Turn s .take { s with thread := .taken, dumpReq := false } := by
  refine ⟨⟨h.link, h.currentConn, h.notifyEnabled, h.bt, going_none rfl⟩, [.take], ?_, ?_⟩
  · simp [mailboxMachine, Mailbox.step, mailbox, hpc, hreq, DumpPc.phase]
  · exact fun _ => ⟨trivial, trivial⟩

theorem loadSeq_turn (h : Open s) {conn : Bool} (hpc : s.thread = .args conn none) :
    Turn s .loadSeq
      { s with thread := .args conn (some ⟨s.dumpFirstSeq, s.accepted.length⟩) } := by
  refine ⟨⟨h.link, h.currentConn, h.notifyEnabled, h.bt, going_none rfl⟩, [.read], ?_, ?_⟩
  · simp [mailboxMachine, Mailbox.step, mailbox, hpc, DumpPc.phase]
  · exact fun _ => ⟨trivial, trivial⟩

theorem deliver_turn (h : Open s) {out : Outgoing} (hpc : s.thread = .sending out)
    {rc : ℤ} : Turn s (.notify rc) (s.deliver out) := by
  have hgoing := h.going
  rw [hpc] at hgoing
  rcases hr : out.rest with _ | ⟨buf, _ | ⟨next, rest⟩⟩
  · exact absurd hr (hgoing out rfl)
  · -- the last buffer: this is the answer
    rw [deliver_last hr]
    refine ⟨⟨h.link, h.currentConn, h.notifyEnabled, h.bt, going_none rfl⟩, [.answer], ?_, ?_⟩
    · simp [mailboxMachine, Mailbox.step, mailbox, hpc, DumpPc.phase, jobOf]
    · exact fun _ => ⟨trivial, trivial⟩
  · rw [deliver_more hr]
    refine turn_same ⟨h.link, h.currentConn, h.notifyEnabled, h.bt, going_more⟩ ?_
    simp [mailbox, hpc, DumpPc.phase]

/-- **On a link that stays**, an event is one of the mailbox, or none. -/
theorem step_turn (h : Open s) (hg : s.Stays e) :
    Turn s e (s.step deviceId e) := by
  have hm := step_moves deviceId s e
  have hup : s.bt ≠ .down ∧ s.bt ≠ .connecting ∧ s.bt ≠ .leaving := by
    rcases h.bt with hbt | hbt <;> rw [hbt] <;> simp
  generalize s.step deviceId e = s' at hm ⊢
  cases hm with
  | stay => exact turn_same h rfl
  | linkUp hbt => exact absurd hbt hup.1
  | connected hbt => exact absurd hbt hup.2.1
  | linkDown => exact hg.elim
  | disconnected hbt hlink =>
    rw [h.link] at hlink
    simp at hlink
  | unref hbt => exact absurd hbt hup.2.2
  | cccChanged value hbt =>
    refine turn_same ⟨h.link, h.currentConn, decide_eq_true hg, h.bt, h.going⟩ rfl
  | accept offset buf firstSeq hbt => exact accept_turn h hbt firstSeq
  | give hbt => exact give_turn h hbt
  | take hpc hreq => exact take_turn h hpc hreq
  | lookConn hpc hon =>
    apply turn_thread h (going_none rfl)
    rw [hpc]
    rfl
  | lookEnabled hpc hon =>
    apply turn_thread h (going_none rfl)
    rw [hpc]
    rfl
  | skip hpc hoff =>
    rcases hoff with hoff | hoff
    · rw [h.currentConn] at hoff
      simp at hoff
    · rw [h.notifyEnabled] at hoff
      simp at hoff
  | loadConn job hpc =>
    apply turn_thread h (going_none rfl)
    rw [hpc]
    cases job with
    | none => rfl
    | some j => rfl
  | null job hpc hoff =>
    rw [h.currentConn] at hoff
    simp at hoff
  | loadSeq conn hpc => exact loadSeq_turn h hpc
  | start d job hpc =>
    apply turn_thread h (going_start job _ d)
    rw [hpc]
    rfl
  | full rc out hpc =>
    have hgoing := h.going
    rw [hpc] at hgoing
    refine turn_thread h hgoing ?_
    rw [hpc]
    rfl
  | refused rc out hpc hrc =>
    obtain ⟨hneg, hfull⟩ := hrc h.link
    rcases hg with hg | hg
    · omega
    · exact absurd hg hfull
  | took rc out hpc hlink => exact deliver_turn h hpc
  | wake out hpc =>
    have hgoing := h.going
    rw [hpc] at hgoing
    refine turn_thread h hgoing ?_
    rw [hpc]
    rfl
  | abort out hpc hoff =>
    rw [h.currentConn] at hoff
    simp at hoff

end Turn

/-- **A run on a link that stays** is a run of the mailbox. -/
theorem run_turn {s : Session} (h : Open s) {evs : List SessionEvent}
    (hg : (sessionMachine deviceId).Guarded Stays s evs) :
    ∃ mails, (mailboxMachine UInt32).run s.mailbox mails =
        ((sessionMachine deviceId).run s evs).mailbox ∧
      ((sessionMachine deviceId).Guarded OneByOne s evs →
        (mailboxMachine UInt32).Guarded Mailbox.Serial s.mailbox mails) := by
  induction evs generalizing s with
  | nil => exact ⟨[], rfl, fun _ => trivial⟩
  | cons e evs ih =>
    obtain ⟨hopen, first, hfirst, hserial⟩ := step_turn h hg.1
    obtain ⟨rest, hrest, hserial'⟩ := ih hopen hg.2
    refine ⟨first ++ rest, ?_, ?_⟩
    · rw [Machine.run_append, hfirst]
      exact hrest
    · intro hone
      refine Machine.guarded_append.2 ⟨hserial hone.1, ?_⟩
      rw [hfirst]
      exact hserial' hone.2

/-- The mailbox of a session says what its commands got. -/
theorem answered_of_sound {s : Session} (h : s.mailbox.Sound) (hq : s.Quiet) : s.Answered := by
  have hquiet := quiet_mailbox hq
  have hreads : s.mailbox.reads = s.streamed.map jobOf := Mailbox.reads_waiting hquiet.1
  have hcount := h.count
  have hlatest := h.latest
  have hord := h.inOrder
  have hlast := h.last
  rw [hreads] at hlatest hord hlast
  refine ⟨?_, ?_, ?_, ?_⟩
  · have hs : s.mailbox.answers.length = s.streamed.length := List.length_map _
    have hp : s.mailbox.posted.length = s.accepted.length := List.length_map _
    omega
  · intro j hj
    obtain ⟨hle, hval⟩ := hlatest (jobOf j) (List.mem_map_of_mem hj)
    have hmap : ((s.accepted.take j.stamp).getLast?).map Command.firstSeq = some j.firstSeq := by
      rw [← List.getLast?_map, List.map_take]
      exact hval
    obtain ⟨c, hc, hv⟩ := Option.map_eq_some_iff.1 hmap
    refine ⟨?_, c, hc, hv⟩
    have hp : s.mailbox.posted.length = s.accepted.length := List.length_map _
    rw [← hp]
    exact hle
  · rw [List.map_map] at hord
    exact hord
  · intro hne
    obtain ⟨a, ha, hstamp⟩ := hlast (by simpa [mailbox] using hne) hquiet.2.2 hquiet.2.1
      (by rw [hquiet.1]; simp)
    rw [List.getLast?_map] at ha
    obtain ⟨j, hj, rfl⟩ := Option.map_eq_some_iff.1 ha
    refine ⟨j, hj, ?_⟩
    have hp : s.mailbox.posted.length = s.accepted.length := List.length_map _
    rw [← hp]
    exact hstamp

/-- Answers in the order of the posts. -/
theorem answeredOnce_of_posted {s : Session}
    (h : s.mailbox.answers.map Prod.fst = s.mailbox.posted) : s.AnsweredOnce := by
  have hposted : s.accepted.map Command.firstSeq = s.mailbox.answers.map Prod.fst := h.symm
  have hanswers : s.mailbox.answers.map Prod.fst = s.streamed.map Job.firstSeq := List.map_map
  unfold AnsweredOnce
  rw [hposted, hanswers]

end Session

/-- **The frames answer the latest commands**, over every run on a link that stays connected
and subscribed; when no command comes before the one before it is answered, each is answered
once. -/
theorem answers_last (deviceId : List UInt8) (conn : ℕ) (dumpFirstSeq : UInt32)
    {evs : List SessionEvent}
    (hg : (sessionMachine deviceId).Guarded Session.Stays (.subscribed conn dumpFirstSeq) evs)
    (hq : ((sessionMachine deviceId).run (.subscribed conn dumpFirstSeq) evs).Quiet) :
    ((sessionMachine deviceId).run (.subscribed conn dumpFirstSeq) evs).Answered ∧
      ((sessionMachine deviceId).Guarded Session.OneByOne (.subscribed conn dumpFirstSeq) evs →
        ((sessionMachine deviceId).run (.subscribed conn dumpFirstSeq) evs).AnsweredOnce) := by
  obtain ⟨mails, hrun, hserial⟩ := Session.run_turn (Session.subscribed_open conn dumpFirstSeq) hg
  have hstart : (Session.subscribed conn dumpFirstSeq).mailbox = .empty dumpFirstSeq := rfl
  rw [hstart] at hrun hserial
  refine ⟨?_, ?_⟩
  · apply Session.answered_of_sound ?_ hq
    rw [← hrun]
    exact Mailbox.run_sound dumpFirstSeq mails
  · intro hone
    have hquiet := Session.quiet_mailbox hq
    rw [← hrun] at hquiet
    have hexact := Mailbox.run_serial dumpFirstSeq (hserial hone) hquiet
    rw [hrun] at hexact
    exact Session.answeredOnce_of_posted hexact

/-- Two commands, the second one after the first is answered. -/
theorem answers_each :
    ((sessionMachine [0x50, 0x52]).run (.subscribed 1 0)
      (ask 5 ++ answer ++ ask 7 ++ answer)).Answered ∧
    ((sessionMachine [0x50, 0x52]).run (.subscribed 1 0)
      (ask 5 ++ answer ++ ask 7 ++ answer)).AnsweredOnce := by
  have hstays : (sessionMachine [0x50, 0x52]).Guarded Session.Stays (.subscribed 1 0)
      (ask 5 ++ answer ++ ask 7 ++ answer) := by decide +kernel
  have h := answers_last [0x50, 0x52] 1 0 hstays (by decide +kernel)
  exact ⟨h.1, h.2 (by decide +kernel)⟩

/-- **Two commands share a frame** when the second one comes before the first is read. -/
theorem answers_merge :
    (sessionMachine [0x50, 0x52]).Guarded Session.Stays (.subscribed 1 0)
      (ask 5 ++ ask 7 ++ answer) ∧
    ((sessionMachine [0x50, 0x52]).run (.subscribed 1 0) (ask 5 ++ ask 7 ++ answer)).Quiet ∧
    ¬ ((sessionMachine [0x50, 0x52]).run (.subscribed 1 0)
      (ask 5 ++ ask 7 ++ answer)).AnsweredOnce := by
  refine ⟨?_, ?_, ?_⟩ <;> decide +kernel

end PresenceNode
