import PresenceNode.Spec.Session
import PresenceNode.Proof.Handed

/-!
# Frames go to the connection that asked

* `Moves`: what an event can do.
* `Routed`: in a guarded run, the job the dump thread is at answers a command of the present
  connection, and so would the next one, or that has not subscribed; `step_routed`.
* `Framed`: what the present connection has received ends where the frame under way is;
  `step_framed`.
* `delivered_calm`: so in a guarded run every connection receives frames it asked for.
* `delivered_elsewhere`: a request that outlives its link is answered on the next one.
-/

namespace PresenceNode

variable {deviceId : List UInt8}

/-- A request is taken, and its seq not yet read. -/
def DumpPc.Unread : DumpPc → Prop
  | taken => True
  | connSeen => True
  | args _ none => True
  | _ => False

namespace Session

/-! ## What an event can do -/

/-- **What an event can do**: leave the state alone, or one of these. -/
inductive Moves (deviceId : List UInt8) (s : Session) : SessionEvent → Session → Prop
  | stay (e : SessionEvent) : Moves deviceId s e s
  | linkUp (hbt : s.bt = .down) :
      Moves deviceId s .linkUp
        { s with bt := .connecting, link := true, conn := s.conn + 1, torn := false }
  | connected (hbt : s.bt = .connecting) :
      Moves deviceId s .connected { s with bt := .idle, currentConn := true }
  | linkDown : Moves deviceId s .linkDown { s with link := false }
  | disconnected (hbt : s.bt = .idle) (hlink : s.link = false) :
      Moves deviceId s .disconnected { s with bt := .leaving, notifyEnabled := false }
  | unref (hbt : s.bt = .leaving) :
      Moves deviceId s .unref { s with bt := .down, currentConn := false }
  | cccChanged (value : UInt16) (hbt : s.bt = .idle) :
      Moves deviceId s (.cccChanged value) { s with notifyEnabled := value = btGattCccNotify }
  | accept (offset : UInt16) (buf : List UInt8) (firstSeq : UInt32) (hbt : s.bt = .idle) :
      Moves deviceId s (.ctrlWrite offset buf) (s.accept firstSeq)
  | give (hbt : s.bt = .giving) :
      Moves deviceId s .give { s with bt := .idle, dumpReq := true }
  | take (hpc : s.thread = .waiting) (hreq : s.dumpReq = true) :
      Moves deviceId s .take { s with thread := .taken, dumpReq := false }
  | lookConn (hpc : s.thread = .taken) (hon : s.currentConn = true) :
      Moves deviceId s .look { s with thread := .connSeen }
  | lookEnabled (hpc : s.thread = .connSeen) (hon : s.notifyEnabled = true) :
      Moves deviceId s .look { s with thread := .args false none }
  /-- The `if` is false. -/
  | skip (hpc : s.thread = .taken ∨ s.thread = .connSeen)
      (hoff : s.currentConn = false ∨ s.notifyEnabled = false) :
      Moves deviceId s .look { s with thread := .waiting }
  | loadConn (job : Option Job) (hpc : s.thread = .args false job) :
      Moves deviceId s .loadConn { s with thread := .args true job }
  | null (job : Option Job) (hpc : s.thread = .args false job) (hoff : s.currentConn = false) :
      Moves deviceId s .loadConn { s with thread := .halted }
  | loadSeq (conn : Bool) (hpc : s.thread = .args conn none) :
      Moves deviceId s .loadSeq
        { s with thread := .args conn (some ⟨s.dumpFirstSeq, s.accepted.length⟩) }
  | start (d : DumpInput) (job : Job) (hpc : s.thread = .args true (some job)) :
      Moves deviceId s (.start d)
        { s with
          thread := .sending ⟨job, s.dumps.length, [], dumpBuffers deviceId job.firstSeq d⟩,
          dumps := s.dumps ++ [⟨job, d⟩] }
  | full (rc : ℤ) (out : Outgoing) (hpc : s.thread = .sending out) :
      Moves deviceId s (.notify rc) { s with thread := .sleeping out }
  | refused (rc : ℤ) (out : Outgoing) (hpc : s.thread = .sending out)
      (hrc : s.link = true → rc < 0 ∧ rc ≠ -enomem) :
      Moves deviceId s (.notify rc) (s.cut out)
  | took (rc : ℤ) (out : Outgoing) (hpc : s.thread = .sending out) (hlink : s.link = true) :
      Moves deviceId s (.notify rc) (s.deliver out)
  | wake (out : Outgoing) (hpc : s.thread = .sleeping out) :
      Moves deviceId s .wake { s with thread := .sending out }
  | abort (out : Outgoing) (hpc : s.thread = .sleeping out) (hoff : s.currentConn = false) :
      Moves deviceId s .wake (s.cut out)

theorem notified_moves {s : Session} {out : Outgoing} (hpc : s.thread = .sending out) (rc : ℤ) :
    Moves deviceId s (.notify rc) (s.notified out rc) := by
  unfold notified
  split_ifs with hfull hneg
  · exact .full rc out hpc
  · apply Moves.refused rc out hpc
    intro hlink
    have hrc : s.notifyRc rc = rc := if_pos (Or.inl hlink)
    rw [hrc] at hfull hneg
    exact ⟨hneg, hfull⟩
  · apply Moves.took rc out hpc
    -- with the link down the answer would be negative
    by_contra hlink
    apply hneg
    unfold notifyRc
    split_ifs with h
    · exact h.resolve_left hlink
    · decide

theorem dumpThread_moves (s : Session) (e : SessionEvent) :
    Moves deviceId s e (s.dumpThread deviceId e) := by
  cases e with
  | take =>
    simp only [dumpThread]
    split
    next hpc =>
      split_ifs with hreq
      · exact .take hpc hreq
      · exact .stay _
    next => exact .stay _
  | look =>
    simp only [dumpThread]
    split
    next hpc =>
      split_ifs with hon
      · exact .lookConn hpc hon
      · exact .skip (Or.inl hpc) (Or.inl (Bool.eq_false_of_not_eq_true hon))
    next hpc =>
      split_ifs with hon
      · exact .lookEnabled hpc hon
      · exact .skip (Or.inr hpc) (Or.inr (Bool.eq_false_of_not_eq_true hon))
    next => exact .stay _
  | loadConn =>
    simp only [dumpThread]
    split
    next job hpc =>
      split_ifs with hon
      · exact .loadConn job hpc
      · exact .null job hpc (Bool.eq_false_of_not_eq_true hon)
    next => exact .stay _
  | loadSeq =>
    simp only [dumpThread]
    split
    next conn hpc => exact .loadSeq conn hpc
    next => exact .stay _
  | start d =>
    simp only [dumpThread]
    split
    next job hpc => exact .start d job hpc
    next => exact .stay _
  | notify rc =>
    simp only [dumpThread]
    split
    next out hpc => exact notified_moves hpc rc
    next => exact .stay _
  | wake =>
    simp only [dumpThread]
    split
    next out hpc =>
      split_ifs with hon
      · exact .wake out hpc
      · exact .abort out hpc (Bool.eq_false_of_not_eq_true hon)
    next => exact .stay _
  | _ => exact .stay _

/-- **Every event makes one of these moves.** -/
theorem step_moves (deviceId : List UInt8) (s : Session) (e : SessionEvent) :
    Moves deviceId s e (s.step deviceId e) := by
  cases e with
  | linkUp =>
    simp only [step]
    split_ifs with hbt
    · exact .linkUp hbt
    · exact .stay _
  | connected =>
    simp only [step]
    split_ifs with hbt
    · exact .connected hbt
    · exact .stay _
  | linkDown => exact .linkDown
  | disconnected =>
    simp only [step]
    split_ifs with hbt
    · exact .disconnected hbt.1 hbt.2
    · exact .stay _
  | unref =>
    simp only [step]
    split_ifs with hbt
    · exact .unref hbt
    · exact .stay _
  | cccChanged value =>
    simp only [step]
    split_ifs with hbt
    · exact .cccChanged value hbt
    · exact .stay _
  | ctrlWrite offset buf =>
    simp only [step]
    split_ifs with hbt
    · split
      · exact .accept offset buf _ hbt
      · exact .stay _
    · exact .stay _
  | give =>
    simp only [step]
    split_ifs with hbt
    · exact .give hbt
    · exact .stay _
  | _ => exact dumpThread_moves s _

/-! ## What a connection has received -/

theorem piecesOn_append {s s' : Session} {p : Piece} (h : s'.received = s.received ++ [p]) (m : ℕ) :
    s'.piecesOn m = s.piecesOn m ++ if p.conn = m then [p] else [] := by
  unfold piecesOn
  rw [h, List.filter_append]
  by_cases hp : p.conn = m
  · rw [if_pos hp, List.filter_singleton, decide_eq_true hp, cond_true]
  · rw [if_neg hp, List.filter_singleton, decide_eq_false hp, cond_false]

/-- More commands, and more dumps. -/
structure Grows (s s' : Session) : Prop where
  accepted : s.accepted <+: s'.accepted
  dumps : s.dumps <+: s'.dumps

theorem Grows.same {s s' : Session} (ha : s'.accepted = s.accepted) (hd : s'.dumps = s.dumps) :
    s.Grows s' :=
  ⟨ha ▸ List.prefix_rfl, hd ▸ List.prefix_rfl⟩

/-- A job answers the command it answered. -/
theorem AskedOn.mono {s s' : Session} (hacc : s.accepted <+: s'.accepted) {m : ℕ} {j : Job}
    (h : s.AskedOn m j) : s'.AskedOn m j := by
  obtain ⟨more, hmore⟩ := hacc
  obtain ⟨hle, hlast⟩ := h
  unfold AskedOn
  rw [← hmore, List.take_append_of_le_length hle, List.length_append]
  exact ⟨le_trans hle (Nat.le_add_right _ _), hlast⟩

theorem FrameOn.mono {s s' : Session} (hs : s.Grows s') {m : ℕ} {f : Frame}
    (h : s.FrameOn deviceId m f) : s'.FrameOn deviceId m f := by
  obtain ⟨d, hd, hask, hf⟩ := h
  obtain ⟨more, hmore⟩ := hs.dumps
  have hlt : f.number < s.dumps.length := (List.getElem?_eq_some_iff.1 hd).1
  have hd' : s'.dumps[f.number]? = some d := by
    rw [← hmore, List.getElem?_append_left hlt]
    exact hd
  exact ⟨d, hd', hask.mono hs.accepted, hf⟩

/-- Connection `m` has received frames it asked for, and then `tail`. -/
def Upto (deviceId : List UInt8) (s : Session) (m : ℕ) (tail : List Piece) : Prop :=
  ∃ frames : List Frame, s.piecesOn m = frames.flatMap (·.pieces m) ++ tail ∧
    (∀ f ∈ frames, s.FrameOn deviceId m f) ∧
    (tail = [] ∨ ∃ f, s.FrameOn deviceId m f ∧ tail <+: f.pieces m)

theorem delivered_iff {s : Session} {m : ℕ} :
    s.Delivered deviceId m ↔ ∃ tail, s.Upto deviceId m tail := by
  constructor
  · rintro ⟨frames, tail, h⟩
    exact ⟨tail, frames, h⟩
  · rintro ⟨tail, frames, h⟩
    exact ⟨frames, tail, h⟩

/-- More commands and dumps, and nothing more on connection `m`. -/
theorem Upto.mono {s s' : Session} {m : ℕ} {tail : List Piece} (h : s.Upto deviceId m tail)
    (hs : s.Grows s') (hpieces : s'.piecesOn m = s.piecesOn m) : s'.Upto deviceId m tail := by
  obtain ⟨frames, heq, hall, htail⟩ := h
  refine ⟨frames, hpieces.trans heq, fun f hf => (hall f hf).mono hs, ?_⟩
  rcases htail with ht | ⟨f, hf, hpre⟩
  · exact Or.inl ht
  · exact Or.inr ⟨f, hf.mono hs, hpre⟩

theorem Delivered.mono {s s' : Session} {m : ℕ} (h : s.Delivered deviceId m)
    (hs : s.Grows s') (hpieces : s'.piecesOn m = s.piecesOn m) : s'.Delivered deviceId m := by
  obtain ⟨tail, ht⟩ := delivered_iff.1 h
  exact delivered_iff.2 ⟨tail, ht.mono hs hpieces⟩

/-- Nothing received. -/
theorem upto_nil {s : Session} {m : ℕ} (h : s.piecesOn m = []) : s.Upto deviceId m [] :=
  ⟨[], h, by simp, Or.inl rfl⟩

section More

variable {s s' : Session} {m : ℕ} {f : Frame} {tail : List Piece} {p : Piece}

/-- A notification inside a frame. -/
theorem Upto.more (h : s.Upto deviceId m tail) (hs : s.Grows s')
    (hpieces : s'.piecesOn m = s.piecesOn m ++ [p]) (hf : s.FrameOn deviceId m f)
    (hpre : tail ++ [p] <+: f.pieces m) : s'.Upto deviceId m (tail ++ [p]) := by
  obtain ⟨frames, heq, hall, -⟩ := h
  refine ⟨frames, ?_, fun f hf => (hall f hf).mono hs, Or.inr ⟨f, hf.mono hs, hpre⟩⟩
  rw [hpieces, heq, List.append_assoc]

/-- The end of a frame. -/
theorem Upto.last (h : s.Upto deviceId m tail) (hs : s.Grows s')
    (hpieces : s'.piecesOn m = s.piecesOn m ++ [p]) (hf : s.FrameOn deviceId m f)
    (hend : tail ++ [p] = f.pieces m) : s'.Upto deviceId m [] := by
  obtain ⟨frames, heq, hall, -⟩ := h
  refine ⟨frames ++ [f], ?_, ?_, Or.inl rfl⟩
  · rw [hpieces, heq, List.flatMap_append, List.flatMap_singleton, ← hend, List.append_nil,
      List.append_assoc]
  · intro g hg
    rcases List.mem_append.1 hg with hg | hg
    · exact (hall g hg).mono hs
    · rw [List.mem_singleton.1 hg]
      exact hf.mono hs

end More

/-- A frame is there only while `dump_run` is. -/
theorem no_frame {pc : DumpPc} (h : ¬ pc.Dumping) : pc.job = none ∧ pc.out = none := by
  cases pc with
  | waiting => exact ⟨rfl, rfl⟩
  | taken => exact ⟨rfl, rfl⟩
  | connSeen => exact ⟨rfl, rfl⟩
  | halted => exact ⟨rfl, rfl⟩
  | args conn job => exact absurd trivial h
  | sending out => exact absurd trivial h
  | sleeping out => exact absurd trivial h

/-! ## Who asked -/

/-- The latest command came on the present connection. -/
def Own (s : Session) : Prop := s.accepted.getLast?.map Command.conn = some s.conn

/-- **The request is of the present connection**, except while that has not subscribed. -/
structure Routed (s : Session) : Prop where
  /-- A connection begins without a subscription. -/
  silent : s.bt ≠ .idle → s.bt ≠ .giving → s.notifyEnabled = false
  latest : ∀ c, s.accepted.getLast? = some c → c.firstSeq = s.dumpFirstSeq
  giving : s.bt = .giving → s.Own
  pending : s.Pending → s.notifyEnabled = true → s.Own
  unread : ∀ conn, s.thread = .args conn none → s.Own
  job : ∀ j ∈ s.thread.job, s.AskedOn s.conn j

/-- A seq that is read now answers the latest command. -/
theorem Own.asked {s : Session} (h : s.Own)
    (hlatest : ∀ c, s.accepted.getLast? = some c → c.firstSeq = s.dumpFirstSeq) :
    s.AskedOn s.conn ⟨s.dumpFirstSeq, s.accepted.length⟩ := by
  obtain ⟨c, hc, hconn⟩ := Option.map_eq_some_iff.1 h
  refine ⟨le_refl _, c, ?_, hconn, hlatest c hc⟩
  rw [List.take_length]
  exact hc

theorem off_routed : Routed off where
  silent := fun _ _ => rfl
  latest := by intro c h; simp [off] at h
  giving := by intro h; simp [off] at h
  pending := by intro _ h; simp [off] at h
  unread := by intro conn h; simp [off] at h
  job := by intro j h; simp [off, DumpPc.job] at h

theorem linkUp_routed {s : Session} (h : Routed s) (hbt : s.bt = .down)
    (hg : ¬ s.thread.Dumping) :
    Routed { s with bt := .connecting, link := true, conn := s.conn + 1, torn := false } where
  silent := fun _ _ => h.silent (by rw [hbt]; simp) (by rw [hbt]; simp)
  latest := h.latest
  giving := by intro hb; simp at hb
  pending := by
    -- what is pending is of an earlier connection, and nobody has subscribed
    intro _ hon
    have hoff := h.silent (by rw [hbt]; simp) (by rw [hbt]; simp)
    rw [show s.notifyEnabled = true from hon] at hoff
    simp at hoff
  unread := by
    intro conn hpc
    have hdump : s.thread.Dumping := by
      rw [show s.thread = .args conn none from hpc]
      trivial
    exact absurd hdump hg
  job := by
    intro j hj
    rw [show s.thread.job = none from (no_frame hg).1] at hj
    simp at hj

theorem connected_routed {s : Session} (h : Routed s) :
    Routed { s with bt := .idle, currentConn := true } :=
  { h with
    silent := fun hb => absurd rfl hb
    giving := by intro hb; simp at hb }

theorem linkDown_routed {s : Session} (h : Routed s) : Routed { s with link := false } :=
  ⟨h.silent, h.latest, h.giving, h.pending, h.unread, h.job⟩

theorem disconnected_routed {s : Session} (h : Routed s) :
    Routed { s with bt := .leaving, notifyEnabled := false } :=
  { h with
    silent := fun _ _ => rfl
    giving := by intro hb; simp at hb
    pending := by intro _ hon; simp at hon }

theorem unref_routed {s : Session} (h : Routed s) (hbt : s.bt = .leaving) :
    Routed { s with bt := .down, currentConn := false } :=
  { h with
    silent := fun _ _ => h.silent (by rw [hbt]; simp) (by rw [hbt]; simp)
    giving := by intro hb; simp at hb }

/-- **A subscription** finds no request of an earlier connection. -/
theorem ccc_routed {s : Session} (h : Routed s) (hbt : s.bt = .idle) {on : Bool}
    (hg : on = true → ¬ s.Stale) : Routed { s with notifyEnabled := on } :=
  { h with
    silent := fun hb => absurd hbt hb
    pending := by
      intro hp hon
      by_contra hne
      exact hg hon ⟨hp, hne⟩ }

theorem accept_routed {s : Session} (h : Routed s) (firstSeq : UInt32) :
    Routed (s.accept firstSeq) := by
  have hnew : (s.accept firstSeq).Own := by
    unfold Own
    simp [accept]
  have hsub : s.accepted <+: (s.accept firstSeq).accepted := List.prefix_append _ _
  refine ⟨fun _ hb => absurd rfl hb, ?_, fun _ => hnew, fun _ _ => hnew, fun _ _ => hnew, ?_⟩
  · intro c hc
    simp only [accept, List.getLast?_append, List.getLast?_singleton, Option.some_or,
      Option.some.injEq] at hc
    rw [← hc]
    rfl
  · intro j hj
    exact (h.job j hj).mono hsub

theorem give_routed {s : Session} (h : Routed s) (hbt : s.bt = .giving) :
    Routed { s with bt := .idle, dumpReq := true } :=
  { h with
    silent := fun hb => absurd rfl hb
    giving := by intro hb; simp at hb
    pending := fun _ _ => h.giving hbt }

/-- A step of the dump thread: `s'` differs from `s` in what only that touches. -/
theorem thread_routed {s s' : Session} (h : Routed s)
    (hs : s' = { s with
      thread := s'.thread, dumpReq := s'.dumpReq, torn := s'.torn, dumps := s'.dumps,
      received := s'.received, streamed := s'.streamed })
    (hpend : s'.Pending → s.Pending)
    (hunread : ∀ conn, s'.thread = .args conn none → s.Own)
    (hjob : ∀ j ∈ s'.thread.job, s.AskedOn s.conn j) : Routed s' := by
  have hbt : s'.bt = s.bt := by rw [hs]
  have hon : s'.notifyEnabled = s.notifyEnabled := by rw [hs]
  have hacc : s'.accepted = s.accepted := by rw [hs]
  have hconn : s'.conn = s.conn := by rw [hs]
  have hseq : s'.dumpFirstSeq = s.dumpFirstSeq := by rw [hs]
  have hown : s.Own → s'.Own := by
    unfold Own
    rw [hacc, hconn]
    exact id
  refine ⟨?_, ?_, ?_, ?_, ?_, ?_⟩
  · rw [hbt, hon]
    exact h.silent
  · rw [hacc, hseq]
    exact h.latest
  · intro hb
    rw [hbt] at hb
    exact hown (h.giving hb)
  · intro hp ho
    rw [hon] at ho
    exact hown (h.pending (hpend hp) ho)
  · exact fun conn hpc => hown (hunread conn hpc)
  · intro j hj
    rw [hconn]
    exact (hjob j hj).mono (hacc ▸ List.prefix_rfl)

/-- The dump thread has no request to read. -/
theorem steady_routed {s s' : Session} (h : Routed s)
    (hs : s' = { s with
      thread := s'.thread, dumpReq := s.dumpReq, torn := s'.torn, dumps := s'.dumps,
      received := s'.received, streamed := s'.streamed })
    (hread : ¬ s'.thread.Unread)
    (hjob : s'.thread.job = none ∨ s'.thread.job = s.thread.job) : Routed s' := by
  have hreq : s'.dumpReq = s.dumpReq := by rw [hs]
  apply thread_routed h (by rw [hreq]; exact hs)
  · rintro (hp | hp | hp)
    · exact Or.inl (hreq ▸ hp)
    · rw [hp] at hread
      exact absurd trivial hread
    · rw [hp] at hread
      exact absurd trivial hread
  · intro conn hp
    rw [hp] at hread
    exact absurd trivial hread
  · rcases hjob with hjob | hjob
    · rw [hjob]
      intro j hj
      simp at hj
    · rw [hjob]
      exact h.job

/-- It is at the arguments of `dump_run`. -/
theorem args_routed {s : Session} (h : Routed s) {conn : Bool} {job : Option Job}
    (hunread : job = none → s.Own)
    (hjob : ∀ j ∈ job, s.AskedOn s.conn j) : Routed { s with thread := .args conn job } := by
  apply thread_routed h rfl
  · rintro (hp | hp | hp)
    · exact Or.inl hp
    · simp at hp
    · simp at hp
  · intro conn' hp
    simp only [DumpPc.args.injEq] at hp
    exact hunread hp.2
  · exact hjob

section Deliver

variable {s : Session} {out : Outgoing} {buf next : List UInt8} {rest : List (List UInt8)}

theorem deliver_none (hr : out.rest = []) : s.deliver out = { s with thread := .waiting } := by
  unfold deliver
  rw [hr]

theorem deliver_last (hr : out.rest = [buf]) :
    s.deliver out =
      { s with
        thread := .waiting, received := s.received ++ [⟨s.conn, out.number, buf⟩],
        streamed := s.streamed ++ [out.job] } := by
  unfold deliver
  rw [hr]

theorem deliver_more (hr : out.rest = buf :: next :: rest) :
    s.deliver out =
      { s with
        thread := .sending { out with gone := out.gone ++ [buf], rest := next :: rest },
        received := s.received ++ [⟨s.conn, out.number, buf⟩] } := by
  unfold deliver
  rw [hr]

end Deliver

/-- **Every guarded event keeps the request with its connection.** -/
theorem step_routed {s : Session} (h : Routed s) {e : SessionEvent} (hg : s.Calm e) :
    Routed (s.step deviceId e) := by
  have hm := step_moves deviceId s e
  generalize s.step deviceId e = s' at hm ⊢
  cases hm with
  | stay => exact h
  | linkUp hbt => exact linkUp_routed h hbt (hg hbt)
  | connected hbt => exact connected_routed h
  | linkDown => exact linkDown_routed h
  | disconnected hbt hlink => exact disconnected_routed h
  | unref hbt => exact unref_routed h hbt
  | cccChanged value hbt => exact ccc_routed h hbt fun hon => hg (of_decide_eq_true hon)
  | accept offset buf firstSeq hbt => exact accept_routed h firstSeq
  | give hbt => exact give_routed h hbt
  | take hpc hreq =>
    apply thread_routed h rfl
    · exact fun _ => Or.inl hreq
    · intro conn hp; simp at hp
    · intro j hj; simp [DumpPc.job] at hj
  | lookConn hpc hon =>
    apply thread_routed h rfl
    · exact fun _ => Or.inr (Or.inl hpc)
    · intro conn hp; simp at hp
    · intro j hj; simp [DumpPc.job] at hj
  | lookEnabled hpc hon =>
    -- subscribed, so what is pending is of the present connection
    apply args_routed h
    · exact fun _ => h.pending (Or.inr (Or.inr hpc)) hon
    · intro j hj; simp at hj
  | skip hpc hoff => exact steady_routed h rfl id (Or.inl rfl)
  | loadConn job hpc =>
    apply args_routed h
    · intro hj
      rw [hj] at hpc
      exact h.unread false hpc
    · intro j hj
      apply h.job
      rw [hpc]
      exact hj
  | null job hpc hoff => exact steady_routed h rfl id (Or.inl rfl)
  | loadSeq conn hpc =>
    apply args_routed h
    · intro hj; simp at hj
    · intro j hj
      rw [← Option.some.inj hj]
      exact (h.unread conn hpc).asked h.latest
  | start d job hpc => exact steady_routed h rfl id (Or.inr (by rw [hpc]; rfl))
  | full rc out hpc => exact steady_routed h rfl id (Or.inr (by rw [hpc]; rfl))
  | refused rc out hpc hrc => exact steady_routed h rfl id (Or.inl rfl)
  | took rc out hpc hlink =>
    rcases hr : out.rest with _ | ⟨buf, _ | ⟨next, rest⟩⟩
    · rw [deliver_none hr]
      exact steady_routed h rfl id (Or.inl rfl)
    · rw [deliver_last hr]
      exact steady_routed h rfl id (Or.inl rfl)
    · rw [deliver_more hr]
      exact steady_routed h rfl id (Or.inr (by rw [hpc]; rfl))
  | wake out hpc => exact steady_routed h rfl id (Or.inr (by rw [hpc]; rfl))
  | abort out hpc hoff => exact steady_routed h rfl id (Or.inl rfl)

/-! ## What has gone where -/

/-- A frame under way is not all gone. -/
def Going (pc : DumpPc) : Prop := ∀ out ∈ pc.out, out.rest ≠ []

theorem going_none {pc : DumpPc} (h : pc.out = none) : Going pc := by
  intro out ho
  rw [h] at ho
  simp at ho

/-- A frame begins. -/
theorem going_start (job : Job) (number : ℕ) (d : DumpInput) :
    Going (.sending ⟨job, number, [], dumpBuffers deviceId job.firstSeq d⟩) := by
  intro out ho
  simp only [DumpPc.out, Option.mem_def, Option.some.injEq] at ho
  rw [← ho]
  exact dumpBuffers_ne_nil deviceId job.firstSeq d

/-- A buffer that is not the last one goes out. -/
theorem going_more {job : Job} {number : ℕ} {gone rest : List (List UInt8)} {next : List UInt8} :
    Going (.sending ⟨job, number, gone, next :: rest⟩) := by
  intro out ho
  simp only [DumpPc.out, Option.mem_def, Option.some.injEq] at ho
  rw [← ho]
  exact List.cons_ne_nil _ _

/-- A frame under way is the one that its dump handed over. -/
def Whole (deviceId : List UInt8) (dumps : List Dump) (pc : DumpPc) : Prop :=
  ∀ out ∈ pc.out, ∃ d, dumps[out.number]? = some ⟨out.job, d⟩ ∧
    out.gone ++ out.rest = dumpBuffers deviceId out.job.firstSeq d

theorem whole_none {dumps : List Dump} {pc : DumpPc} (h : pc.out = none) :
    Whole deviceId dumps pc := by
  intro out ho
  rw [h] at ho
  simp at ho

/-- A frame begins. -/
theorem whole_start (dumps : List Dump) (job : Job) (d : DumpInput) :
    Whole deviceId (dumps ++ [⟨job, d⟩])
      (.sending ⟨job, dumps.length, [], dumpBuffers deviceId job.firstSeq d⟩) := by
  intro out ho
  simp only [DumpPc.out, Option.mem_def, Option.some.injEq] at ho
  rw [← ho]
  exact ⟨d, List.getElem?_concat_length, rfl⟩

/-- A buffer that is not the last one goes out. -/
theorem whole_more {dumps : List Dump} {out : Outgoing} {buf : List UInt8}
    {rest : List (List UInt8)} (h : Whole deviceId dumps (.sending out))
    (hr : out.rest = buf :: rest) :
    Whole deviceId dumps (.sending { out with gone := out.gone ++ [buf], rest := rest }) := by
  intro o ho
  simp only [DumpPc.out, Option.mem_def, Option.some.injEq] at ho
  obtain ⟨d, hd, hall⟩ := h out rfl
  rw [← ho]
  refine ⟨d, hd, ?_⟩
  rw [← hall, hr]
  exact List.append_cons out.gone buf rest ▸ rfl

/-- What is gone of the frame under way, as connection `m` has it. -/
def sentOn (pc : DumpPc) (m : ℕ) : List Piece :=
  (pc.out.map fun out => (Frame.mk out.number out.gone).pieces m).getD []

theorem sentOn_none {pc : DumpPc} (h : pc.out = none) (m : ℕ) : sentOn pc m = [] := by
  unfold sentOn
  rw [h]
  rfl

theorem pieces_append (n m : ℕ) (bufs more : List (List UInt8)) :
    (Frame.mk n (bufs ++ more)).pieces m = (Frame.mk n bufs).pieces m ++ (Frame.mk n more).pieces m :=
  List.map_append

/-- **Every connection has what it asked for**; while a link is up and no frame was cut short
on it, only the frame under way is incomplete. -/
structure Framed (deviceId : List UInt8) (s : Session) : Prop where
  going : Going s.thread
  whole : Whole deviceId s.dumps s.thread
  intact : s.link = true → s.thread.out ≠ none → s.torn = false
  here : ∃ tail, s.Upto deviceId s.conn tail ∧
    (s.link = true → s.torn = false → tail = sentOn s.thread s.conn)
  past : ∀ m < s.conn, s.Delivered deviceId m
  later : ∀ m, s.conn < m → s.piecesOn m = []

theorem off_framed : Framed deviceId off where
  going := going_none rfl
  whole := whole_none rfl
  intact := by intro h; simp [off] at h
  here := ⟨[], upto_nil rfl, fun _ _ => rfl⟩
  past := by intro m h; simp [off] at h
  later := fun _ _ => rfl

/-- **A new connection** has received nothing. -/
theorem linkUp_framed {s : Session} (h : Framed deviceId s) (hg : ¬ s.thread.Dumping) :
    Framed deviceId
      { s with bt := .connecting, link := true, conn := s.conn + 1, torn := false } where
  going := h.going
  whole := h.whole
  intact := fun _ _ => rfl
  here := by
    refine ⟨[], upto_nil (h.later _ (Nat.lt_succ_self _)), fun _ _ => ?_⟩
    exact (sentOn_none (no_frame hg).2 _).symm
  past := by
    intro m hm
    rcases Nat.lt_succ_iff_lt_or_eq.1 hm with hlt | rfl
    · exact h.past m hlt
    · obtain ⟨tail, ht, -⟩ := h.here
      exact delivered_iff.2 ⟨tail, ht⟩
  later := fun m hm => h.later m (lt_trans (Nat.lt_succ_self _) hm)

/-- A step of the Bluetooth thread that brings no link up. -/
theorem bt_framed {s s' : Session} (h : Framed deviceId s)
    (hs : s' = { s with
      link := s'.link, bt := s'.bt, currentConn := s'.currentConn,
      notifyEnabled := s'.notifyEnabled, dumpReq := s'.dumpReq,
      dumpFirstSeq := s'.dumpFirstSeq, accepted := s'.accepted })
    (hlink : s'.link = true → s.link = true) (hacc : s.accepted <+: s'.accepted) :
    Framed deviceId s' := by
  have hthread : s'.thread = s.thread := by rw [hs]
  have htorn : s'.torn = s.torn := by rw [hs]
  have hconn : s'.conn = s.conn := by rw [hs]
  have hdumps : s'.dumps = s.dumps := by rw [hs]
  have hgrows : s.Grows s' := ⟨hacc, hdumps ▸ List.prefix_rfl⟩
  have hpieces : ∀ m, s'.piecesOn m = s.piecesOn m := by rw [hs]; exact fun _ => rfl
  refine ⟨?_, ?_, ?_, ?_, ?_, ?_⟩
  · rw [hthread]
    exact h.going
  · rw [hthread, hdumps]
    exact h.whole
  · rw [hthread, htorn]
    exact fun hl => h.intact (hlink hl)
  · obtain ⟨tail, ht, htail⟩ := h.here
    rw [hthread, htorn, hconn]
    exact ⟨tail, ht.mono hgrows (hpieces _), fun hl => htail (hlink hl)⟩
  · intro m hm
    rw [hconn] at hm
    exact (h.past m hm).mono hgrows (hpieces m)
  · intro m hm
    rw [hconn] at hm
    rw [hpieces]
    exact h.later m hm

/-- A step of the dump thread that sends nothing. -/
theorem thread_framed {s : Session} (h : Framed deviceId s) {pc : DumpPc} {torn : Bool}
    {dumps : List Dump} (hdumps : s.dumps <+: dumps) (hgoing : Going pc)
    (hwhole : Whole deviceId dumps pc)
    (hintact : s.link = true → pc.out ≠ none → torn = false)
    (hgone : s.link = true → torn = false →
      s.torn = false ∧ sentOn pc s.conn = sentOn s.thread s.conn) :
    Framed deviceId { s with thread := pc, torn := torn, dumps := dumps } := by
  have hgrows : s.Grows { s with thread := pc, torn := torn, dumps := dumps } :=
    ⟨List.prefix_rfl, hdumps⟩
  refine ⟨hgoing, hwhole, hintact, ?_, ?_, h.later⟩
  · obtain ⟨tail, ht, htail⟩ := h.here
    refine ⟨tail, ht.mono hgrows rfl, fun hl hn => ?_⟩
    obtain ⟨hold, hsame⟩ := hgone hl hn
    exact (htail hl hold).trans hsame.symm
  · exact fun m hm => (h.past m hm).mono hgrows rfl

/-- The dump thread is at no frame, before and after. -/
theorem quiet_framed {s s' : Session} (h : Framed deviceId s)
    (hs : s' = { s with thread := s'.thread, dumpReq := s'.dumpReq })
    (hout : s.thread.out = none) (hout' : s'.thread.out = none) : Framed deviceId s' := by
  have hthread : Framed deviceId { s with thread := s'.thread, torn := s.torn, dumps := s.dumps } := by
    apply thread_framed h List.prefix_rfl (going_none hout') (whole_none hout')
    · exact fun _ hne => absurd hout' hne
    · intro _ hn
      rw [sentOn_none hout, sentOn_none hout']
      exact ⟨hn, rfl⟩
  rw [hs]
  exact bt_framed hthread rfl (fun h => h) List.prefix_rfl

/-- **A frame is cut short**: nothing of it is gone, or the link remembers. -/
theorem cut_framed {s : Session} (h : Framed deviceId s) {out : Outgoing}
    (hout : s.thread.out = some out) : Framed deviceId (s.cut out) := by
  apply thread_framed h List.prefix_rfl (going_none rfl) (whole_none rfl)
  · exact fun _ hne => absurd rfl hne
  · intro _ hn
    simp only [Bool.or_eq_false_iff, decide_eq_false_iff_not, not_not] at hn
    refine ⟨hn.1, ?_⟩
    unfold sentOn
    rw [hout]
    show ([] : List Piece) = (Frame.mk out.number out.gone).pieces s.conn
    rw [hn.2]
    rfl

/-- The frame goes on, from `bt_gatt_notify` to `k_msleep` and back. -/
theorem again_framed {s : Session} (h : Framed deviceId s) {pc : DumpPc}
    (hout : pc.out = s.thread.out) : Framed deviceId { s with thread := pc } := by
  have hgoing := h.going
  have hwhole := h.whole
  unfold Going at hgoing
  unfold Whole at hwhole
  rw [← hout] at hgoing hwhole
  refine thread_framed h List.prefix_rfl hgoing hwhole ?_ ?_
  · rw [hout]
    exact h.intact
  · intro _ hn
    unfold sentOn
    rw [hout]
    exact ⟨hn, rfl⟩

/-- A frame begins, where none was cut short. -/
theorem start_framed {s : Session} (h : Framed deviceId s) {job : Job}
    (hout : s.thread.out = none) (hg : s.link = true → s.torn = false) (d : DumpInput) :
    Framed deviceId
      { s with
        thread := .sending ⟨job, s.dumps.length, [], dumpBuffers deviceId job.firstSeq d⟩,
        dumps := s.dumps ++ [⟨job, d⟩] } := by
  refine thread_framed h (List.prefix_append _ _) (going_start job _ d) (whole_start _ job d)
    (fun hl _ => hg hl) ?_
  intro _ hn
  rw [sentOn_none hout]
  exact ⟨hn, rfl⟩

section Receive

variable {s : Session} {out : Outgoing} {buf next : List UInt8} {rest : List (List UInt8)}

/-- The frame under way was asked for on the present connection. -/
theorem sending_asked (hr : Routed s) (h : Framed deviceId s) (hpc : s.thread = .sending out) :
    s.FrameOn deviceId s.conn ⟨out.number, out.gone ++ out.rest⟩ := by
  have hask : s.AskedOn s.conn out.job := hr.job out.job (by rw [hpc]; rfl)
  obtain ⟨d, hd, hall⟩ := h.whole out (by rw [hpc]; rfl)
  refine ⟨⟨out.job, d⟩, hd, hask, hall, ?_⟩
  show ∃ recs, _ ∧ (out.gone ++ out.rest).flatten = _
  rw [hall]
  exact dumpBuffers_frame deviceId out.job.firstSeq d

/-- What is gone of it is what the present connection has of it. -/
theorem sending_tail (h : Framed deviceId s) (hpc : s.thread = .sending out)
    (hlink : s.link = true) :
    s.torn = false ∧ s.Upto deviceId s.conn ((Frame.mk out.number out.gone).pieces s.conn) := by
  have hwhole : s.torn = false := by
    apply h.intact hlink
    rw [hpc]
    simp [DumpPc.out]
  obtain ⟨tail, ht, htail⟩ := h.here
  rw [htail hlink hwhole, hpc] at ht
  exact ⟨hwhole, ht⟩

/-- **A buffer is received**: the other connections see nothing of it. -/
theorem receive_framed {s' : Session} {n : ℕ} (h : Framed deviceId s)
    (hreceived : s'.received = s.received ++ [⟨s.conn, n, buf⟩])
    (hs : s' = { s with thread := s'.thread, received := s'.received, streamed := s'.streamed })
    (htorn : s.torn = false) (hgoing : Going s'.thread) (hwhole : Whole deviceId s.dumps s'.thread)
    (hhere : s.Grows s' → s'.piecesOn s.conn = s.piecesOn s.conn ++ [⟨s.conn, n, buf⟩] →
      s'.Upto deviceId s.conn (sentOn s'.thread s.conn)) :
    Framed deviceId s' := by
  have hpieces := piecesOn_append hreceived
  have hconn : s'.conn = s.conn := by rw [hs]
  have hdumps : s'.dumps = s.dumps := by rw [hs]
  have hgrows : s.Grows s' := Grows.same (by rw [hs]) hdumps
  have hother : ∀ m, m ≠ s.conn → s'.piecesOn m = s.piecesOn m := by
    intro m hm
    rw [hpieces, if_neg (Ne.symm hm), List.append_nil]
  refine ⟨hgoing, ?_, ?_, ?_, ?_, ?_⟩
  · rw [hdumps]
    exact hwhole
  · intro _ _
    rw [hs]
    exact htorn
  · have hnew := hpieces s.conn
    rw [if_pos rfl] at hnew
    rw [hconn]
    exact ⟨_, hhere hgrows hnew, fun _ _ => rfl⟩
  · intro m hm
    rw [hconn] at hm
    exact (h.past m hm).mono hgrows (hother m (Nat.ne_of_lt hm))
  · intro m hm
    rw [hconn] at hm
    rw [hother m (Nat.ne_of_gt hm)]
    exact h.later m hm

/-- The last buffer: the frame is complete. -/
theorem last_framed (hrouted : Routed s) (h : Framed deviceId s) (hpc : s.thread = .sending out)
    (hlink : s.link = true) (hr : out.rest = [buf]) : Framed deviceId (s.deliver out) := by
  have hask := sending_asked hrouted h hpc
  obtain ⟨htorn, htail⟩ := sending_tail h hpc hlink
  rw [hr] at hask
  rw [deliver_last hr]
  apply receive_framed h rfl rfl htorn (going_none rfl) (whole_none rfl)
  intro hgrows hnew
  have hend := pieces_append out.number s.conn out.gone [buf]
  exact htail.last hgrows hnew hask hend.symm

/-- One of several: the frame goes on. -/
theorem more_framed (hrouted : Routed s) (h : Framed deviceId s) (hpc : s.thread = .sending out)
    (hlink : s.link = true) (hr : out.rest = buf :: next :: rest) :
    Framed deviceId (s.deliver out) := by
  have hask := sending_asked hrouted h hpc
  have hwhole := h.whole
  rw [hpc] at hwhole
  obtain ⟨htorn, htail⟩ := sending_tail h hpc hlink
  have hnow : (Frame.mk out.number (out.gone ++ [buf])).pieces s.conn =
      (Frame.mk out.number out.gone).pieces s.conn ++ [⟨s.conn, out.number, buf⟩] :=
    pieces_append _ _ _ _
  have hsplit : out.gone ++ out.rest = (out.gone ++ [buf]) ++ (next :: rest) := by
    rw [hr, List.append_assoc]
    rfl
  rw [hsplit] at hask
  rw [deliver_more hr]
  apply receive_framed h rfl rfl htorn going_more (whole_more hwhole hr)
  intro hgrows hnew
  show Upto deviceId _ _ ((Frame.mk out.number (out.gone ++ [buf])).pieces s.conn)
  rw [hnow]
  refine htail.more hgrows hnew hask ?_
  rw [pieces_append, hnow]
  exact List.prefix_append _ _

end Receive

/-- **Every guarded event keeps the frames with their connections.** -/
theorem step_framed {s : Session} (hr : Routed s) (h : Framed deviceId s) {e : SessionEvent}
    (hg : s.Calm e) : Framed deviceId (s.step deviceId e) := by
  have hm := step_moves deviceId s e
  generalize s.step deviceId e = s' at hm ⊢
  cases hm with
  | stay => exact h
  | linkUp hbt => exact linkUp_framed h (hg hbt)
  | connected hbt => exact bt_framed h rfl (fun h => h) List.prefix_rfl
  | linkDown => exact bt_framed h rfl (fun hl => by simp at hl) List.prefix_rfl
  | disconnected hbt hlink => exact bt_framed h rfl (fun h => h) List.prefix_rfl
  | unref hbt => exact bt_framed h rfl (fun h => h) List.prefix_rfl
  | cccChanged value hbt => exact bt_framed h rfl (fun h => h) List.prefix_rfl
  | accept offset buf firstSeq hbt =>
    exact bt_framed h rfl (fun h => h) (List.prefix_append _ _)
  | give hbt => exact bt_framed h rfl (fun h => h) List.prefix_rfl
  | take hpc hreq => exact quiet_framed h rfl (by rw [hpc]; rfl) rfl
  | lookConn hpc hon => exact quiet_framed h rfl (by rw [hpc]; rfl) rfl
  | lookEnabled hpc hon => exact quiet_framed h rfl (by rw [hpc]; rfl) rfl
  | skip hpc hoff =>
    apply quiet_framed h rfl ?_ rfl
    rcases hpc with hpc | hpc
    · rw [hpc]; rfl
    · rw [hpc]; rfl
  | loadConn job hpc => exact quiet_framed h rfl (by rw [hpc]; rfl) rfl
  | null job hpc hoff => exact quiet_framed h rfl (by rw [hpc]; rfl) rfl
  | loadSeq conn hpc => exact quiet_framed h rfl (by rw [hpc]; rfl) rfl
  | start d job hpc => exact start_framed h (by rw [hpc]; rfl) hg d
  | full rc out hpc => exact again_framed h (by rw [hpc]; rfl)
  | refused rc out hpc hrc => exact cut_framed h (by rw [hpc]; rfl)
  | took rc out hpc hlink =>
    rcases hrest : out.rest with _ | ⟨buf, _ | ⟨next, rest⟩⟩
    · exact absurd hrest (h.going out (by rw [hpc]; rfl))
    · exact last_framed hr h hpc hlink hrest
    · exact more_framed hr h hpc hlink hrest
  | wake out hpc => exact again_framed h (by rw [hpc]; rfl)
  | abort out hpc hoff => exact cut_framed h (by rw [hpc]; rfl)

/-- What holds over every guarded run. -/
def Sound (deviceId : List UInt8) (s : Session) : Prop := Routed s ∧ Framed deviceId s

theorem session_sound {evs : List SessionEvent}
    (hg : (sessionMachine deviceId).Guarded Calm off evs) :
    Sound deviceId ((sessionMachine deviceId).run off evs) := by
  have hoff : Sound deviceId off := ⟨off_routed, off_framed⟩
  have hstep : ∀ s e, Sound deviceId s → s.Calm e →
      Sound deviceId ((sessionMachine deviceId).step s e) := by
    intro s e h hcalm
    exact ⟨step_routed h.1 hcalm, step_framed h.1 h.2 hcalm⟩
  exact Machine.run_invariant hstep hoff hg

/-- Every connection has received what it asked for. -/
theorem framed_delivered {s : Session} (h : Framed deviceId s) (m : ℕ) :
    s.Delivered deviceId m := by
  rcases lt_trichotomy m s.conn with hlt | rfl | hgt
  · exact h.past m hlt
  · obtain ⟨tail, ht, -⟩ := h.here
    exact delivered_iff.2 ⟨tail, ht⟩
  · exact delivered_iff.2 ⟨[], upto_nil (h.later m hgt)⟩

end Session

/-- **Frames go only to the connection that asked**, over every run in which no link comes up
while `dump_run` runs, nobody subscribes while a request of an earlier connection is pending,
and no frame begins on a link on which one was cut short. -/
theorem delivered_calm (deviceId : List UInt8) {evs : List SessionEvent}
    (hg : (sessionMachine deviceId).Guarded Session.Calm .off evs) (m : ℕ) :
    ((sessionMachine deviceId).run .off evs).Delivered deviceId m :=
  Session.framed_delivered (Session.session_sound hg).2 m

/-! ## A request that outlives its link -/

/-- A central connects and subscribes. -/
def join : List SessionEvent := [.linkUp, .connected, .cccChanged btGattCccNotify]

/-- It is gone again. -/
def part : List SessionEvent := [.linkDown, .disconnected, .unref]

/-- It asks for the records from `b` on. -/
def ask (b : UInt8) : List SessionEvent := [.ctrlWrite 0 [0x01, b, 0, 0, 0], .give]

/-- The dump thread answers from an empty store, in one notification. -/
def answer : List SessionEvent :=
  [.take, .look, .look, .loadConn, .loadSeq,
    .start ⟨247, true, ⟨fun _ => none, Ram.zero, .idle, []⟩, []⟩, .notify 0]

/-- Two connections, each with its own frame. -/
theorem delivered_twice :
    ((sessionMachine [0x50, 0x52]).run .off
      (join ++ ask 5 ++ answer ++ part ++ join ++ ask 7 ++ answer)).bytesOn 2 ≠ [] ∧
    ((sessionMachine [0x50, 0x52]).run .off
      (join ++ ask 5 ++ answer ++ part ++ join ++ ask 7 ++ answer)).Delivered [0x50, 0x52] 2 :=
  ⟨by decide +kernel, delivered_calm [0x50, 0x52] (by decide +kernel) 2⟩

/-- A connection on which nothing was accepted must receive nothing. -/
theorem unasked_silent {s : Session} {m : ℕ} (hno : ∀ c ∈ s.accepted, c.conn ≠ m)
    (h : s.Delivered deviceId m) : s.bytesOn m = [] := by
  obtain ⟨frames, tail, heq, hall, htail⟩ := h
  have hnone : ∀ f, ¬ s.FrameOn deviceId m f := by
    rintro f ⟨d, -, ⟨-, c, hc, hm, -⟩, -⟩
    exact hno c (List.mem_of_mem_take (List.mem_of_getLast? hc)) hm
  have hframes : frames = [] := by
    apply List.eq_nil_iff_forall_not_mem.2
    intro f hf
    exact hnone f (hall f hf)
  have hempty : tail = [] := by
    rcases htail with ht | ⟨f, hf, -⟩
    · exact ht
    · exact absurd hf (hnone f)
  unfold Session.bytesOn Session.notificationsOn
  rw [heq, hframes, hempty]
  rfl

/-- **The next connection is answered**: the request was accepted on connection 1, and its
frame goes to connection 2, which asked for nothing. -/
theorem delivered_elsewhere :
    ((sessionMachine [0x50, 0x52]).run .off (join ++ ask 5 ++ part ++ join ++ answer)).accepted =
      [⟨1, 5⟩] ∧
    ¬ ((sessionMachine [0x50, 0x52]).run .off
      (join ++ ask 5 ++ part ++ join ++ answer)).Delivered [0x50, 0x52] 2 := by
  have hacc : ((sessionMachine [0x50, 0x52]).run .off
      (join ++ ask 5 ++ part ++ join ++ answer)).accepted = [⟨1, 5⟩] := by decide +kernel
  have hbytes : ((sessionMachine [0x50, 0x52]).run .off
      (join ++ ask 5 ++ part ++ join ++ answer)).bytesOn 2 ≠ [] := by decide +kernel
  refine ⟨hacc, fun h => hbytes (unasked_silent ?_ h)⟩
  intro c hc
  rw [hacc, List.mem_singleton] at hc
  rw [hc]
  simp

end PresenceNode
