import PresenceNode.Proof.App
import PresenceNode.Proof.Recorder
import PresenceNode.Spec.Tagged

/-!
# What a dump tells

* `Under`, `dumpRun_under`: what the main loop's steps keep, a dump keeps.
* `node_tells`: the records stored while a dump runs.
* `frames_tell`: a frame reads back as consecutive records; each tells of a flush, or is the
  placeholder.
-/

namespace PresenceNode

/-! ## Under a dump -/

section Under

variable {allowed : MainStep SntlRecord → Prop} {P : Node SntlRecord → Prop}

/-- **A world that stays within bounds**: its node is in `P`, and the main loop is scheduled to take
allowed steps. -/
structure World.Under (allowed : MainStep SntlRecord → Prop) (P : Node SntlRecord → Prop)
    (w : World) : Prop where
  node : P w.node
  sched : ∀ steps ∈ w.sched, ∀ s ∈ steps, allowed s

/-- `P` is kept by every allowed step, and going on in an append is allowed. -/
structure Bounds (allowed : MainStep SntlRecord → Prop) (P : Node SntlRecord → Prop) : Prop where
  step : ∀ n s, P n → allowed s → P (n.step sntlLayout s)
  go : ∀ ok, allowed (.go ok)

theorem run_under (hP : Bounds allowed P) {n : Node SntlRecord} (h : P n)
    {steps : List (MainStep SntlRecord)} (hs : ∀ s ∈ steps, allowed s) :
    P (n.run sntlLayout steps) := by
  induction steps generalizing n with
  | nil => exact h
  | cons s steps ih =>
    rw [Node.run_cons]
    exact ih (hP.step n s h (hs s List.mem_cons_self))
      fun s' hs' => hs s' (List.mem_cons_of_mem _ hs')

theorem yield_under (hP : Bounds allowed P) {w : World} (h : w.Under allowed P) :
    w.yield.Under allowed P := by
  unfold World.yield
  split
  · exact h
  · rename_i steps sched hsched
    have hall := h.sched
    rw [hsched] at hall
    exact ⟨run_under hP h.node (hall steps List.mem_cons_self),
      fun steps' hs' => hall steps' (List.mem_cons_of_mem _ hs')⟩

theorem loadOldest_under (hP : Bounds allowed P) {w : World} (h : w.Under allowed P) :
    w.loadOldest.2.Under allowed P := by
  unfold World.loadOldest
  simp only
  split
  · exact yield_under hP (yield_under hP h)
  · exact yield_under hP h

theorem acquire_under (hP : Bounds allowed P) {w : World} (h : w.Under allowed P) :
    w.acquire.Under allowed P := by
  have go : ∀ (sched : List (List (MainStep SntlRecord))) (node : Node SntlRecord), P node →
      (∀ steps ∈ sched, ∀ s ∈ steps, allowed s) → (World.acquire.go w sched node).Under allowed P := by
    intro sched
    induction sched with
    | nil =>
      intro node hn hsched
      refine ⟨run_under hP hn ?_, by simp [World.acquire.go]⟩
      intro s hs
      simp only [List.mem_cons, List.not_mem_nil, or_false, or_self] at hs
      rw [hs]
      exact hP.go true
    | cons steps sched ih =>
      intro node hn hsched
      have hn' := run_under hP hn (hsched steps List.mem_cons_self)
      have hsched' : ∀ steps' ∈ sched, ∀ s ∈ steps', allowed s :=
        fun steps' hs' => hsched steps' (List.mem_cons_of_mem _ hs')
      unfold World.acquire.go
      simp only
      split
      · exact ⟨hn', hsched'⟩
      · exact ih _ hn' hsched'
  exact go _ _ h.node h.sched

theorem get_under (hP : Bounds allowed P) {w : World} (h : w.Under allowed P) (seq : UInt32) :
    (w.get seq).2.Under allowed P := by
  unfold World.get
  simp only
  split
  · exact yield_under hP h
  split
  · exact loadOldest_under hP (yield_under hP h)
  · exact acquire_under hP (loadOldest_under hP (yield_under hP h))

theorem dumpRange_under (hP : Bounds allowed P) {w : World} (h : w.Under allowed P)
    (nextFirst : Bool) (firstSeq : UInt32) :
    (dumpRange nextFirst firstSeq w).2.Under allowed P := by
  unfold dumpRange
  cases nextFirst with
  | true => exact loadOldest_under hP (yield_under hP h)
  | false => exact yield_under hP (loadOldest_under hP h)

theorem notify_under {w : World} (h : w.Under allowed P) (buf : List UInt8) :
    (w.notify buf).1.Under allowed P := by
  unfold World.notify
  simp only
  cases notifyChunk w.link with
  | none => exact ⟨h.node, h.sched⟩
  | some a => exact ⟨h.node, h.sched⟩

theorem flush_under {w : World} (h : w.Under allowed P) (chunk need : ℕ) (buf : List UInt8) :
    (w.flush chunk need buf).1.Under allowed P := by
  have hn := notify_under h buf
  unfold World.flush
  split_ifs
  · rcases hw : w.notify buf with ⟨w', _ | e⟩
    · rw [hw] at hn
      exact hn
    · rw [hw] at hn
      exact hn
  · exact h

theorem dumpLoop_under (hP : Bounds allowed P) {chunk : ℕ} (hc : chunk ≤ dumpBufSize)
    (seqs : List UInt32) (crc : UInt16) (buf : List UInt8) {w : World} (h : w.Under allowed P) :
    (dumpLoop chunk seqs crc buf w).1.Under allowed P := by
  induction seqs generalizing crc buf w with
  | nil => exact h
  | cons seq seqs ih =>
    have hflush := flush_under (get_under hP h seq) chunk sntlRecordSize buf
    rcases hf : (w.get seq).2.flush chunk sntlRecordSize buf with ⟨w', e | buf'⟩
    · rw [hf] at hflush
      rw [dumpLoop_stop hf]
      exact hflush
    · rw [hf] at hflush
      rw [dumpLoop_go hc hf]
      exact ih _ _ hflush

/-- **What the main loop keeps, a dump keeps.** -/
theorem dumpRun_under (hP : Bounds allowed P) {w : World} (h : w.Under allowed P)
    (deviceId : List UInt8) (mtu : UInt16) (nextFirst : Bool) (firstSeq : UInt32) :
    P (dumpRun deviceId mtu nextFirst firstSeq w).1.node := by
  have hrange := dumpRange_under hP h nextFirst firstSeq
  rcases hr : dumpRange nextFirst firstSeq w with ⟨⟨count, start⟩, w₁⟩
  rw [hr] at hrange
  have hloop := dumpLoop_under hP (dumpChunk_le mtu) (seqRange start (start + count.toUInt32))
    (sntlCrc16 0xFFFF (sntlEncodeHeader count deviceId)) (sntlEncodeHeader count deviceId) hrange
  rw [dumpRun_eq hr]
  unfold dumpRest
  rcases hl : dumpLoop (dumpChunk mtu) (seqRange start (start + count.toUInt32))
    (sntlCrc16 0xFFFF (sntlEncodeHeader count deviceId)) (sntlEncodeHeader count deviceId)
    w₁ with ⟨w₂, e | ⟨crc, buf⟩⟩
  · rw [hl] at hloop
    exact hloop.node
  · rw [hl] at hloop
    simp only
    rw [(dumpTrailer_spec (dumpChunk_le mtu) crc buf w₂).1]
    exact hloop.node

end Under

/-! ## The frame -/

/-- What is appended has a property, under any seq and ts. -/
def Appends (q : SntlRecord → Prop) : MainStep SntlRecord → Prop
  | .append rec _ => ∀ seq ts, q (sntlLayout.stamp seq ts rec)
  | .go _ => True

/-- **What a node has stored since the beginning has it**, and what it is about to store. -/
structure Stores (q : SntlRecord → Prop) (n : Node SntlRecord) : Prop where
  log : ∀ r ∈ n.log, q r
  pc : ∀ out, n.pc = .locked out → q out

theorem stores_bounds (q : SntlRecord → Prop) : Bounds (Appends q) (Stores q) := by
  refine ⟨?_, fun ok => trivial⟩
  intro n s h hs
  cases s with
  | append rec up =>
    simp only [Node.step]
    cases hn : n.pc with
    | idle =>
      refine ⟨h.log, ?_⟩
      intro out hout
      simp only [AppendPc.locked.injEq] at hout
      rw [← hout]
      exact hs _ _
    | _ => exact h
  | go ok =>
    simp only [Node.step]
    cases hn : n.pc with
    | idle => exact h
    | locked out =>
      simp only
      split_ifs
      · refine ⟨?_, fun out hout => by cases hout⟩
        intro r hr
        rcases List.mem_cons.1 hr with rfl | hr
        · exact h.pc r hn
        · exact h.log r hr
      · exact ⟨h.log, fun out hout => by cases hout⟩
    | wrote out => exact ⟨h.log, fun out hout => by cases hout⟩
    | bumped =>
      simp only
      split_ifs
      · exact ⟨h.log, fun out hout => by cases hout⟩
      · exact ⟨h.log, fun out hout => by cases hout⟩

/-- **The records stored while a dump runs**, and before it since the node was idle. -/
theorem node_tells {q : SntlRecord → Prop} {l : Life SntlRecord} (ram : Ram)
    {before : List (MainStep SntlRecord)} (hbefore : ∀ s ∈ before, Appends q s) :
    Stores q (l.dumping ram before [] []).node := by
  have hidle : Stores q (⟨l.flash, ram, .idle, []⟩ : Node SntlRecord) :=
    ⟨fun r hr => absurd hr List.not_mem_nil, fun out hout => by cases hout⟩
  exact run_under (stores_bounds q) hidle hbefore

/-- **From the sensors to the app.** A dump may begin at any moment of any run, and while it runs
the main loop goes on, and flushes as the run goes on. Its frame then reads back as the device's id
and consecutive records; and each record tells of one flush of the run, or is the placeholder for its
seq. -/
theorem frames_tell (deviceId : DeviceId) {fl : Flash} (hb : Blank sntlLayout fl)
    {evs evs' : List RecorderEvent}
    (hg : recorderMachine.Guarded Recorder.InOrder (.start fl) (evs ++ evs')) (ram : Ram)
    {before : List (MainStep SntlRecord)} {sched : List (List (MainStep SntlRecord))}
    (hsteps : ∀ steps ∈ before :: sched, ∀ s ∈ steps, ∀ rec up, s = .append rec up →
      ∃ f ∈ (recorderMachine.run (.start fl) (evs ++ evs')).flushes, rec = f.record)
    (mtu : UInt16) (nextFirst : Bool) (firstSeq : UInt32) :
    ∃ recs start, readFrame (dumpBuffers deviceId.chars firstSeq ⟨mtu, nextFirst,
        ((recorderMachine.run (.start fl) evs).life.dumping ram before [] []).node, sched⟩).flatten =
          some (deviceId.chars, recs) ∧
      recs.map (fun r => r.seq.toNat) = List.range' start recs.length ∧
      ∀ rec ∈ recs, rec = faultRecord rec.seq ∨
        ∃ f ∈ (recorderMachine.run (.start fl) (evs ++ evs')).flushes, Tells f rec := by
  set flushes := (recorderMachine.run (.start fl) (evs ++ evs')).flushes with hflushes
  set r := recorderMachine.run (.start fl) evs with hr
  set q : SntlRecord → Prop := fun rec => ∃ f ∈ flushes, Tells f rec with hq
  have hall := Recorder.run_sound (Recorder.start_sound fl) hg
  have hnow := Recorder.run_held (Recorder.start_sound fl) (Recorder.start_held hb)
    (Machine.guarded_append.1 hg).1
  have happ : ∀ steps ∈ before :: sched, ∀ s ∈ steps, Appends q s := by
    intro steps hst s hs
    cases s with
    | go ok => trivial
    | append rec up =>
      obtain ⟨f, hf, rfl⟩ := hsteps steps hst _ hs rec up rfl
      exact fun seq ts => ⟨f, hf, hall.flushes f hf seq ts⟩
  have hbefore : ∀ s ∈ before, Appends q s := happ before List.mem_cons_self
  have hsched : ∀ steps ∈ sched, ∀ s ∈ steps, Appends q s :=
    fun steps hst => happ steps (List.mem_cons_of_mem _ hst)
  have hstores := node_tells (l := r.life) ram hbefore
  have hknown : Known r.life.flash (r.life.dumping ram before [] []).node :=
    (run_onward ⟨r.life.flash, ram, .idle, []⟩ before).known _ fun s rec hs _ => Or.inl hs
  obtain ⟨recs, hdump, hread⟩ := dumpBuffers_isDump deviceId firstSeq
    ⟨mtu, nextFirst, (r.life.dumping ram before [] []).node, sched⟩ hknown
  have hworld : World.Under (Appends q) (Stores q)
      ⟨(r.life.dumping ram before [] []).node, sched, acceptAll, []⟩ := ⟨hstores, hsched⟩
  have hend := dumpRun_under (stores_bounds q) hworld deviceId.chars mtu nextFirst firstSeq
  refine ⟨recs, _, hread, isDump_seqs hdump, ?_⟩
  intro rec hrec
  obtain ⟨i, hi, rfl⟩ := List.getElem_of_mem hrec
  obtain ⟨hseq, hfault | hheld | hlog⟩ := hdump.genuine i hi
  · left
    rw [List.get_eq_getElem] at hseq hfault
    rw [hseq]
    exact hfault
  · right
    obtain ⟨f, hf, htells⟩ := hnow _ _ hheld
    refine ⟨f, ?_, htells⟩
    rw [hflushes, Machine.run_append]
    exact (Recorder.run_flushes r evs').subset hf
  · right
    exact hend.log _ hlog

set_option maxRecDepth 10000 in
/-- A dump after one window: the second one is flushed while the header is on its way, up to the
write of its record, and on before the first record is read. -/
theorem frames_tell_twoWindows : ∃ recs start, readFrame (dumpBuffers [0x50, 0x52] 0 ⟨23, true,
      ((recorderMachine.run (.start flash₀) Recorder.oneWindow).life.dumping ⟨true, ⟨1, 30⟩, 0, 0⟩
        [.append { Recorder.silentRecord with seq := 0, ts := 0 } 60000] [] []).node,
        [[.go true], [.go true, .go true]]⟩).flatten = some ([0x50, 0x52], recs) ∧
    recs.map (fun r => r.seq.toNat) = List.range' start recs.length ∧
    ∀ rec ∈ recs, rec = faultRecord rec.seq ∨ ∃ f ∈ (recorderMachine.run (.start flash₀)
      Recorder.twoWindows).flushes, Tells f rec := by
  have hg : recorderMachine.Guarded Recorder.InOrder (.start flash₀)
      (Recorder.oneWindow ++ Recorder.window 60) := by decide +kernel
  have hsecond : (recorderMachine.run (.start flash₀) Recorder.twoWindows).flushes.head?.map
      Flush.record = some { Recorder.silentRecord with seq := 0, ts := 0 } := by decide +kernel
  obtain ⟨f, hf, hrec⟩ := Option.map_eq_some_iff.1 hsecond
  refine frames_tell ⟨[0x50, 0x52], by decide, by decide⟩ (recAt_migrated _) hg ⟨true, ⟨1, 30⟩, 0, 0⟩
    ?_ 23 true 0
  intro steps hst s hs rec up he
  refine ⟨f, List.mem_of_head? hf, ?_⟩
  -- the only append is that of the second window
  rw [he] at hs
  simp only [List.mem_cons, List.not_mem_nil, or_false] at hst
  rcases hst with rfl | rfl | rfl
  · simp only [List.mem_cons, MainStep.append.injEq, List.not_mem_nil, or_false] at hs
    rw [hs.1, hrec]
  · simp at hs
  · simp at hs

end PresenceNode
