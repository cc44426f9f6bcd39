import PresenceNode.Spec.Ble
import PresenceNode.Proof.Ring
import Mathlib.Data.List.Forall2

/-!
# A dump is one frame, whatever happens meanwhile

* `Known`: every record held under its own seq was held at the start or stored since; each
  step of the main loop keeps it.
* `get_spec`, `flush_spec`: what a read and a flush can do.
* `dumpLoop_spec`, `dumpTrailer_spec`: the bytes sent and the bytes waiting are always the
  frame up to here.
* `dump_stream`: the buffers handed over make up a prefix of one frame, and the whole of it
  when no notification fails.
-/

namespace PresenceNode

open LittleEndian

/-! ## The frame -/

theorem crcBytes_eq (crc : UInt16) : crcBytes crc = enc 2 crc.toNat := by
  have h : (crc >>> 8).toUInt8 = UInt8.ofNat (crc.toNat / 256) := by
    apply UInt8.toNat_inj.1
    rw [UInt16.toNat_toUInt8, UInt16.toNat_shiftRight, UInt8.toNat_ofNat', Nat.shiftRight_eq_div_pow]
    rfl
  show [crc.toUInt8, (crc >>> 8).toUInt8] = [UInt8.ofNat crc.toNat, UInt8.ofNat (crc.toNat / 256)]
  rw [h]
  rfl

theorem records_length (recs : List SntlRecord) :
    (recs.flatMap sntlEncodeRecord).length = recs.length * sntlRecordSize := by
  induction recs with
  | nil => rfl
  | cons r recs ih =>
    rw [List.flatMap_cons, List.length_append, ih, sntlEncodeRecord_length, List.length_cons]
    ring

theorem wireFrame_length (deviceId : List UInt8) {recs : List SntlRecord}
    (h : recs.length < 2 ^ 16) :
    (wireFrame deviceId recs).length = sntlFrameSize (.ofNat recs.length) := by
  unfold wireFrame frameBody sntlFrameSize
  rw [List.length_append, List.length_append, sntlEncodeHeader_length, records_length, enc_length,
    UInt16.toNat_ofNat_of_lt' h]

/-! ## The store goes on -/

variable {fl₀ : Flash}

/-- **Nothing held is made up**: a record under its own seq was there at the start, or was
stored since. -/
def Known (fl₀ : Flash) (n : Node SntlRecord) : Prop :=
  ∀ s r, recAt sntlLayout n.flash s = some r → r.seq = s →
    recAt sntlLayout fl₀ s = some r ∨ r ∈ n.log

/-- What happens to a node while the main loop runs. -/
structure Onward (n n' : Node SntlRecord) : Prop where
  known : ∀ fl₀, Known fl₀ n → Known fl₀ n'
  log : n.log ⊆ n'.log

theorem Onward.refl (n : Node SntlRecord) : Onward n n := ⟨fun _ h => h, fun _ h => h⟩

theorem Onward.trans {n n' n'' : Node SntlRecord} (h : Onward n n') (h' : Onward n' n'') :
    Onward n n'' :=
  ⟨fun fl₀ hk => h'.known fl₀ (h.known fl₀ hk), fun _ hr => h'.log (h.log hr)⟩

/-- Nothing happens to the flash. -/
theorem onward_same {n n' : Node SntlRecord} (hf : n'.flash = n.flash) (hl : n'.log = n.log) :
    Onward n n' := by
  refine ⟨fun fl₀ hk => ?_, by rw [hl]; exact fun _ h => h⟩
  unfold Known at hk ⊢
  rw [hf, hl]
  exact hk

/-- Only the write of a record touches a slot. -/
theorem step_onward (n : Node SntlRecord) (s : MainStep SntlRecord) :
    Onward n (n.step sntlLayout s) := by
  cases s with
  | append rec up =>
    simp only [Node.step]
    cases n.pc <;> exact onward_same rfl rfl
  | go ok =>
    simp only [Node.step]
    cases n.pc with
    | idle => exact onward_same rfl rfl
    | locked out =>
      simp only
      split_ifs
      · refine ⟨fun fl₀ hk s r hs hr => ?_, fun r hr => List.mem_cons_of_mem _ hr⟩
        have hs' : recAt sntlLayout (putRec sntlLayout n.flash out) s = some r := hs
        by_cases hslot : recId s = recId (sntlLayout.seq out)
        · rw [recAt_putRec_self _ _ hslot, Option.some.injEq] at hs'
          rw [← hs']
          exact Or.inr List.mem_cons_self
        · rw [recAt_putRec_ne _ _ hslot] at hs'
          rcases hk s r hs' hr with h | h
          · exact Or.inl h
          · exact Or.inr (List.mem_cons_of_mem _ h)
      · exact onward_same rfl rfl
    | wrote out => exact onward_same rfl rfl
    | bumped =>
      simp only
      split_ifs
      · refine ⟨fun fl₀ hk s r hs hr => ?_, fun r hr => hr⟩
        have hs' : recAt sntlLayout (putMeta n.flash n.ram.counters) s = some r := hs
        rw [recAt_putMeta] at hs'
        exact hk s r hs' hr
      · exact onward_same rfl rfl

theorem run_onward (n : Node SntlRecord) (steps : List (MainStep SntlRecord)) :
    Onward n (n.run sntlLayout steps) := by
  induction steps generalizing n with
  | nil => exact Onward.refl n
  | cons s steps ih =>
    rw [Node.run_cons]
    exact (step_onward n s).trans (ih _)

/-- The main loop has taken some steps. -/
def Ran (n n' : Node SntlRecord) : Prop := ∃ steps, n' = n.run sntlLayout steps

theorem ran_run (n : Node SntlRecord) (steps : List (MainStep SntlRecord)) :
    Ran n (n.run sntlLayout steps) := ⟨steps, rfl⟩

theorem Ran.refl (n : Node SntlRecord) : Ran n n := ran_run n []

theorem Ran.trans {n n' n'' : Node SntlRecord} (h : Ran n n') (h' : Ran n' n'') : Ran n n'' := by
  obtain ⟨steps, rfl⟩ := h
  obtain ⟨steps', rfl⟩ := h'
  refine ⟨steps ++ steps', ?_⟩
  unfold Node.run
  rw [List.foldl_append]

theorem Ran.onward {n n' : Node SntlRecord} (h : Ran n n') : Onward n n' := by
  obtain ⟨steps, rfl⟩ := h
  exact run_onward n steps

/-- What an access to the store leaves alone. -/
structure Later (w w' : World) : Prop where
  node : Ran w.node w'.node
  link : w'.link = w.link
  sent : w'.sent = w.sent

theorem Later.refl (w : World) : Later w w := ⟨Ran.refl _, rfl, rfl⟩

theorem Later.trans {w w' w'' : World} (h : Later w w') (h' : Later w' w'') : Later w w'' :=
  ⟨h.node.trans h'.node, h'.link.trans h.link, h'.sent.trans h.sent⟩

theorem yield_later (w : World) : Later w w.yield := by
  unfold World.yield
  split
  · exact Later.refl w
  · exact ⟨ran_run _ _, rfl, rfl⟩

theorem loadNext_later (w : World) : Later w w.loadNext.2 := yield_later w

theorem loadOldest_later (w : World) : Later w w.loadOldest.2 := by
  unfold World.loadOldest
  simp only
  split
  · exact (loadNext_later w).trans (loadNext_later _)
  · exact loadNext_later w

theorem acquire_later (w : World) : Later w w.acquire := by
  have go : ∀ sched node, Ran w.node node → Later w (World.acquire.go w sched node) := by
    intro sched
    induction sched with
    | nil =>
      intro node h
      exact ⟨h.trans (ran_run _ _), rfl, rfl⟩
    | cons steps sched ih =>
      intro node h
      have h' := h.trans (ran_run node steps)
      unfold World.acquire.go
      simp only
      split
      · exact ⟨h', rfl, rfl⟩
      · exact ih _ h'
  exact go _ _ (Ran.refl _)

/-- **A read** answers with a record held under the seq asked for. -/
theorem get_spec (w : World) (seq : UInt32) :
    Later w (w.get seq).2 ∧ ∀ r, (w.get seq).1 = .ok r →
      recAt sntlLayout (w.get seq).2.node.flash seq = some r ∧ r.seq = seq := by
  unfold World.get
  simp only
  split
  · exact ⟨loadNext_later w, by simp⟩
  split
  · exact ⟨(loadNext_later w).trans (loadOldest_later _), by simp⟩
  · refine ⟨((loadNext_later w).trans (loadOldest_later _)).trans (acquire_later _), ?_⟩
    intro r hr
    exact (storeRead_ok_iff.1 hr).2

theorem dumpRange_spec (nextFirst : Bool) (firstSeq : UInt32) (w : World) :
    Later w (dumpRange nextFirst firstSeq w).2 ∧
      (dumpRange nextFirst firstSeq w).1.2.toNat + (dumpRange nextFirst firstSeq w).1.1.toNat <
        2 ^ 32 := by
  have hlt : ∀ oldest next : UInt32, (sntlDumpRange firstSeq oldest next).2.toNat +
      (sntlDumpRange firstSeq oldest next).1.toNat < 2 ^ 32 := fun oldest next =>
    lt_of_le_of_lt (sntlDumpRange_spec firstSeq oldest next).1 next.toNat_lt
  unfold dumpRange
  cases nextFirst with
  | true => exact ⟨(loadNext_later w).trans (loadOldest_later _), hlt _ _⟩
  | false => exact ⟨(loadOldest_later w).trans (loadNext_later _), hlt _ _⟩

/-! ## The bytes go out -/

/-- How a notification can stop a dump. -/
def Stopped (e : DumpEnd) : Prop := e = .failed ∨ e = .waiting

theorem notify_spec (w : World) (buf : List UInt8) :
    (w.notify buf).1.node = w.node ∧ (w.notify buf).1.sent = w.sent ++ [buf] ∧
      ∀ e, (w.notify buf).2 = some e → Stopped e := by
  unfold World.notify
  simp only
  cases notifyChunk w.link with
  | none =>
    refine ⟨rfl, rfl, ?_⟩
    intro e he
    exact Or.inr (Option.some.inj he).symm
  | some a =>
    refine ⟨rfl, rfl, ?_⟩
    intro e he
    simp only at he
    split_ifs at he
    exact Or.inl (Option.some.inj he).symm

/-- The bytes sent and the bytes waiting. -/
def World.stream (w : World) (buf : List UInt8) : List UInt8 := w.sent.flatten ++ buf

theorem notify_stream (w : World) (buf : List UInt8) :
    (w.notify buf).1.sent.flatten = w.stream buf := by
  rw [(notify_spec w buf).2.1, List.flatten_append, List.flatten_singleton]
  rfl

/-- **A flush** moves bytes from waiting to sent, and makes room. -/
theorem flush_spec (w : World) (chunk need : ℕ) (buf : List UInt8) :
    (w.flush chunk need buf).1.node = w.node ∧
      (∀ buf', (w.flush chunk need buf).2 = .ok buf' →
        (w.flush chunk need buf).1.stream buf' = w.stream buf ∧
          (buf' = [] ∨ buf'.length + need ≤ chunk)) ∧
      ∀ e, (w.flush chunk need buf).2 = .error e →
        Stopped e ∧ (w.flush chunk need buf).1.sent.flatten = w.stream buf := by
  obtain ⟨hnode, -, hstop⟩ := notify_spec w buf
  have hsent := notify_stream w buf
  unfold World.flush
  by_cases hfit : buf.length + need > chunk
  · rw [if_pos hfit]
    rcases hn : w.notify buf with ⟨w', _ | e⟩
    · rw [hn] at hnode hsent
      refine ⟨hnode, ?_, by simp⟩
      intro buf' hb
      simp only [Except.ok.injEq] at hb
      subst hb
      refine ⟨?_, Or.inl rfl⟩
      show w'.sent.flatten ++ [] = w.stream buf
      rw [List.append_nil]
      exact hsent
    · rw [hn] at hnode hsent hstop
      refine ⟨hnode, by simp, ?_⟩
      intro e' he
      simp only [Except.error.injEq] at he
      subst he
      exact ⟨hstop e rfl, hsent⟩
  · rw [if_neg hfit]
    refine ⟨rfl, ?_, by simp⟩
    intro buf' hb
    simp only [Except.ok.injEq] at hb
    subst hb
    exact ⟨rfl, Or.inr (by omega)⟩

/-- What fits after a flush fits the buffer. -/
theorem place_ok {chunk : ℕ} {buf bytes : List UInt8} (hc : chunk ≤ dumpBufSize)
    (hb : bytes.length ≤ dumpBufSize) (h : buf = [] ∨ buf.length + bytes.length ≤ chunk) :
    place buf bytes = .ok (buf ++ bytes) := by
  unfold place
  rw [if_pos]
  rcases h with rfl | h
  · rw [List.length_nil]; omega
  · omega

theorem dumpChunk_le (mtu : UInt16) : dumpChunk mtu ≤ dumpBufSize := by
  unfold dumpChunk
  simp only
  split <;> split <;> omega

/-! ## The loop -/

/-- **A record the dump may send** for a seq: the placeholder, or one that was held under
the seq at the start or has been stored since. -/
def Genuine (fl₀ : Flash) (log : List SntlRecord) (seq : UInt32) (r : SntlRecord) : Prop :=
  r.seq = seq ∧ (r = faultRecord seq ∨ recAt sntlLayout fl₀ seq = some r ∨ r ∈ log)

theorem Genuine.mono {log log' : List SntlRecord} (h : log ⊆ log') {seq : UInt32} {r : SntlRecord}
    (hr : Genuine fl₀ log seq r) : Genuine fl₀ log' seq r := by
  obtain ⟨hseq, hr | hr | hr⟩ := hr
  · exact ⟨hseq, Or.inl hr⟩
  · exact ⟨hseq, Or.inr (Or.inl hr)⟩
  · exact ⟨hseq, Or.inr (Or.inr (h hr))⟩

theorem faultRecord_genuine (fl₀ : Flash) (log : List SntlRecord) (seq : UInt32) :
    Genuine fl₀ log seq (faultRecord seq) := ⟨rfl, Or.inl rfl⟩

/-- What a read gives is genuine. -/
theorem recordOf_genuine {w : World} (hk : Known fl₀ w.node) (seq : UInt32) :
    Genuine fl₀ (w.get seq).2.node.log seq (recordOf seq (w.get seq).1) := by
  obtain ⟨hlater, hok⟩ := get_spec w seq
  cases hg : (w.get seq).1 with
  | error e => exact faultRecord_genuine fl₀ _ seq
  | ok r =>
    obtain ⟨hrec, hseq⟩ := hok r hg
    exact ⟨hseq, Or.inr (hlater.node.onward.known fl₀ hk seq r hrec hseq)⟩

/-- Placeholders for what was not read. -/
theorem faultRecords_genuine (fl₀ : Flash) (log : List SntlRecord) (seqs : List UInt32) :
    List.Forall₂ (Genuine fl₀ log) seqs (seqs.map faultRecord) := by
  induction seqs with
  | nil => exact .nil
  | cons s seqs ih => exact .cons (faultRecord_genuine fl₀ log s) ih

section Loop

variable {chunk : ℕ} {seq : UInt32} {seqs : List UInt32} {crc : UInt16} {buf buf' : List UInt8}
  {w w' : World} {e : DumpEnd}

/-- A round in which the flush stops the dump. -/
theorem dumpLoop_stop (hf : (w.get seq).2.flush chunk sntlRecordSize buf = (w', .error e)) :
    dumpLoop chunk (seq :: seqs) crc buf w = (w', .error e) := by
  rw [dumpLoop]
  simp only [hf]

theorem get_stream (w : World) (seq : UInt32) (buf : List UInt8) :
    (w.get seq).2.stream buf = w.stream buf := by
  unfold World.stream
  rw [(get_spec w seq).1.sent]

/-- The record fits after the flush. -/
theorem place_record (hc : chunk ≤ dumpBufSize)
    (hf : (w.get seq).2.flush chunk sntlRecordSize buf = (w', .ok buf')) :
    place buf' (sntlEncodeRecord (recordOf seq (w.get seq).1)) =
      .ok (buf' ++ sntlEncodeRecord (recordOf seq (w.get seq).1)) := by
  have hroom := ((flush_spec (w.get seq).2 chunk sntlRecordSize buf).2.1 buf' (by rw [hf])).2
  exact place_ok hc (by rw [sntlEncodeRecord_length]; decide) hroom

/-- The flush moves bytes from the buffer to the link, and the record is added. -/
theorem round_stream (hf : (w.get seq).2.flush chunk sntlRecordSize buf = (w', .ok buf')) :
    w'.stream (buf' ++ sntlEncodeRecord (recordOf seq (w.get seq).1)) =
      w.stream buf ++ sntlEncodeRecord (recordOf seq (w.get seq).1) := by
  have hflush := (flush_spec (w.get seq).2 chunk sntlRecordSize buf).2.1
  rw [hf] at hflush
  have hsame := (hflush buf' rfl).1
  rw [get_stream] at hsame
  unfold World.stream at hsame ⊢
  rw [← List.append_assoc, hsame]

/-- A round that places its record. -/
theorem dumpLoop_go (hc : chunk ≤ dumpBufSize)
    (hf : (w.get seq).2.flush chunk sntlRecordSize buf = (w', .ok buf')) :
    dumpLoop chunk (seq :: seqs) crc buf w =
      dumpLoop chunk seqs (sntlCrc16 crc (sntlEncodeRecord (recordOf seq (w.get seq).1)))
        (buf' ++ sntlEncodeRecord (recordOf seq (w.get seq).1)) w' := by
  have hplace := place_record hc hf
  rw [dumpLoop]
  simp only [hf, hplace]

end Loop

theorem dumpLoop_ran {chunk : ℕ} (hc : chunk ≤ dumpBufSize) (seqs : List UInt32) (crc : UInt16)
    (buf : List UInt8) (w : World) : Ran w.node (dumpLoop chunk seqs crc buf w).1.node := by
  induction seqs generalizing crc buf w with
  | nil => exact Ran.refl _
  | cons seq seqs ih =>
    have hget := (get_spec w seq).1.node
    have hnode := (flush_spec (w.get seq).2 chunk sntlRecordSize buf).1
    rcases hf : (w.get seq).2.flush chunk sntlRecordSize buf with ⟨w', e | buf'⟩
    · rw [hf] at hnode
      rw [dumpLoop_stop hf, show w'.node = _ from hnode]
      exact hget
    · rw [hf] at hnode
      rw [dumpLoop_go hc hf]
      have hrest := ih (sntlCrc16 crc (sntlEncodeRecord (recordOf seq (w.get seq).1)))
        (buf' ++ sntlEncodeRecord (recordOf seq (w.get seq).1)) w'
      rw [show w'.node = _ from hnode] at hrest
      exact hget.trans hrest

/-! ## What is sent -/

theorem flush_sent (w : World) (chunk need : ℕ) (buf : List UInt8) :
    (w.flush chunk need buf).1.sent =
      if buf.length + need > chunk then w.sent ++ [buf] else w.sent := by
  have hsent := (notify_spec w buf).2.1
  unfold World.flush
  by_cases hfit : buf.length + need > chunk
  · rw [if_pos hfit, if_pos hfit]
    rcases hn : w.notify buf with ⟨w', _ | e⟩
    · rw [hn] at hsent
      exact hsent
    · rw [hn] at hsent
      exact hsent
  · rw [if_neg hfit, if_neg hfit]

/-- What is sent stays sent. -/
theorem flush_keeps (w : World) (chunk need : ℕ) (buf : List UInt8) :
    w.sent <+: (w.flush chunk need buf).1.sent := by
  rw [flush_sent]
  split_ifs
  · exact List.prefix_append _ _
  · exact List.prefix_rfl

theorem dumpLoop_sent {chunk : ℕ} (hc : chunk ≤ dumpBufSize) (seqs : List UInt32) (crc : UInt16)
    (buf : List UInt8) (w : World) : w.sent <+: (dumpLoop chunk seqs crc buf w).1.sent := by
  induction seqs generalizing crc buf w with
  | nil => exact List.prefix_rfl
  | cons seq seqs ih =>
    have hflush := flush_keeps (w.get seq).2 chunk sntlRecordSize buf
    rw [(get_spec w seq).1.sent] at hflush
    rcases hf : (w.get seq).2.flush chunk sntlRecordSize buf with ⟨w', e | buf'⟩
    · rw [hf] at hflush
      rw [dumpLoop_stop hf]
      exact hflush
    · rw [hf] at hflush
      rw [dumpLoop_go hc hf]
      exact hflush.trans (ih _ _ _)

theorem dumpTrailer_sent (chunk : ℕ) (crc : UInt16) (buf : List UInt8) (w : World) :
    (w.flush chunk sntlCrcSize buf).1.sent <+: (dumpTrailer chunk crc buf w).1.sent := by
  rw [dumpTrailer]
  rcases hf : w.flush chunk sntlCrcSize buf with ⟨w', e | buf'⟩
  · exact List.prefix_rfl
  · simp only
    split
    · exact List.prefix_rfl
    · rename_i buf₂ _
      have hnotify := (notify_spec w' buf₂).2.1
      rcases hn : w'.notify buf₂ with ⟨w₂, _ | e⟩
      · rw [hn] at hnotify
        rw [hnotify]
        exact List.prefix_append _ _
      · rw [hn] at hnotify
        rw [hnotify]
        exact List.prefix_append _ _

theorem dumpRest_sent {chunk : ℕ} (hc : chunk ≤ dumpBufSize) (seqs : List UInt32) (crc : UInt16)
    (buf : List UInt8) (w : World) : w.sent <+: (dumpRest chunk seqs crc buf w).1.sent := by
  have hloop := dumpLoop_sent hc seqs crc buf w
  unfold dumpRest
  rcases hl : dumpLoop chunk seqs crc buf w with ⟨w', e | ⟨crc', buf'⟩⟩
  · rw [hl] at hloop
    exact hloop
  · rw [hl] at hloop
    exact hloop.trans ((flush_keeps w' chunk sntlCrcSize buf').trans (dumpTrailer_sent _ _ _ _))

/-! ## What the bytes are -/

/-- **The loop** adds the records of its seqs to the stream, or stops inside them. -/
theorem dumpLoop_spec {chunk : ℕ} (hc : chunk ≤ dumpBufSize) (seqs : List UInt32) (crc : UInt16)
    (buf : List UInt8) (w : World) (hk : Known fl₀ w.node) :
    ∃ recs, List.Forall₂ (Genuine fl₀ (dumpLoop chunk seqs crc buf w).1.node.log) seqs recs ∧
      (∀ crc' buf', (dumpLoop chunk seqs crc buf w).2 = .ok (crc', buf') →
        (dumpLoop chunk seqs crc buf w).1.stream buf' =
            w.stream buf ++ recs.flatMap sntlEncodeRecord ∧
          crc' = sntlCrc16 crc (recs.flatMap sntlEncodeRecord)) ∧
      ∀ e, (dumpLoop chunk seqs crc buf w).2 = .error e → Stopped e ∧
        (dumpLoop chunk seqs crc buf w).1.sent.flatten <+:
          w.stream buf ++ recs.flatMap sntlEncodeRecord := by
  induction seqs generalizing crc buf w with
  | nil =>
    refine ⟨[], .nil, ?_, by simp [dumpLoop]⟩
    intro crc' buf' h
    simp only [dumpLoop, Except.ok.injEq, Prod.mk.injEq] at h
    obtain ⟨rfl, rfl⟩ := h
    exact ⟨(List.append_nil _).symm, rfl⟩
  | cons seq seqs ih =>
    -- the main loop may store more while the loop goes on, so the log only grows
    have hgen := recordOf_genuine hk seq
    obtain ⟨hlater, -⟩ := get_spec w seq
    have hstream := get_stream w seq buf
    obtain ⟨hnode, -, hstop⟩ := flush_spec (w.get seq).2 chunk sntlRecordSize buf
    rcases hf : (w.get seq).2.flush chunk sntlRecordSize buf with ⟨w', e | buf'⟩
    · -- the flush stops the dump: the rest of the frame is never read
      rw [hf] at hnode hstop
      obtain ⟨hs, hsent⟩ := hstop e rfl
      have hgen' : Genuine fl₀ w'.node.log seq (recordOf seq (w.get seq).1) := by
        rw [show w'.node = (w.get seq).2.node from hnode]
        exact hgen
      rw [dumpLoop_stop hf]
      refine ⟨_ :: seqs.map faultRecord, .cons hgen' (faultRecords_genuine _ _ _), by simp, ?_⟩
      intro e' he
      simp only [Except.error.injEq] at he
      subst he
      refine ⟨hs, ?_⟩
      rw [show w'.sent.flatten = _ from hsent, hstream]
      exact List.prefix_append _ _
    · rw [hf] at hnode
      have hnode' : w'.node = (w.get seq).2.node := hnode
      rw [dumpLoop_go hc hf]
      obtain ⟨recs, hall, hok, herr⟩ :=
        ih (sntlCrc16 crc (sntlEncodeRecord (recordOf seq (w.get seq).1)))
          (buf' ++ sntlEncodeRecord (recordOf seq (w.get seq).1)) w'
          (by rw [hnode']; exact hlater.node.onward.known fl₀ hk)
      rw [round_stream hf, List.append_assoc] at hok herr
      have hlog := (dumpLoop_ran hc seqs
        (sntlCrc16 crc (sntlEncodeRecord (recordOf seq (w.get seq).1)))
        (buf' ++ sntlEncodeRecord (recordOf seq (w.get seq).1)) w').onward.log
      rw [hnode'] at hlog
      refine ⟨_ :: recs, .cons (hgen.mono hlog) hall, ?_, herr⟩
      intro crc' buf'' h
      obtain ⟨h1, h2⟩ := hok crc' buf'' h
      refine ⟨h1, ?_⟩
      rw [h2, List.flatMap_cons, sntlCrc16_append]

/-- **The end** adds the CRC to the stream, or stops before it. -/
theorem dumpTrailer_spec {chunk : ℕ} (hc : chunk ≤ dumpBufSize) (crc : UInt16) (buf : List UInt8)
    (w : World) :
    (dumpTrailer chunk crc buf w).1.node = w.node ∧
      (∃ tail, tail <+: crcBytes crc ∧
        (dumpTrailer chunk crc buf w).1.sent.flatten = w.stream buf ++ tail) ∧
      ((dumpTrailer chunk crc buf w).2 = .done →
        (dumpTrailer chunk crc buf w).1.sent.flatten = w.stream buf ++ crcBytes crc) ∧
      (dumpTrailer chunk crc buf w).2 ≠ .overrun := by
  obtain ⟨hnode, hflush, hstop⟩ := flush_spec w chunk sntlCrcSize buf
  rw [dumpTrailer]
  rcases hf : w.flush chunk sntlCrcSize buf with ⟨w', e | buf'⟩
  · rw [hf] at hnode hstop
    obtain ⟨hs, hsent⟩ := hstop e rfl
    refine ⟨hnode, ?_, ?_, ?_⟩
    · refine ⟨[], List.nil_prefix, ?_⟩
      rw [List.append_nil]
      exact hsent
    · rintro rfl
      simp [Stopped] at hs
    · rintro rfl
      simp [Stopped] at hs
  · rw [hf] at hnode hflush
    obtain ⟨hsame, hroom⟩ := hflush buf' rfl
    have hplace : place buf' (crcBytes crc) = .ok (buf' ++ crcBytes crc) :=
      place_ok hc (show 2 ≤ dumpBufSize by decide) hroom
    have hsent : (w'.notify (buf' ++ crcBytes crc)).1.sent.flatten =
        w.stream buf ++ crcBytes crc := by
      rw [notify_stream, ← hsame]
      exact (List.append_assoc _ _ _).symm
    obtain ⟨hnode₂, -, hstop₂⟩ := notify_spec w' (buf' ++ crcBytes crc)
    simp only [hplace]
    rcases hn : w'.notify (buf' ++ crcBytes crc) with ⟨w₂, _ | e⟩
    · rw [hn] at hsent hnode₂
      exact ⟨Eq.trans hnode₂ hnode, ⟨_, List.prefix_rfl, hsent⟩, fun _ => hsent, by simp⟩
    · rw [hn] at hsent hnode₂ hstop₂
      have hs := hstop₂ e rfl
      refine ⟨Eq.trans hnode₂ hnode, ⟨_, List.prefix_rfl, hsent⟩, fun _ => hsent, ?_⟩
      rintro rfl
      simp [Stopped] at hs

/-- **From the header on**, the stream becomes records and their CRC, or a beginning of
that. -/
theorem dumpRest_spec {chunk : ℕ} (hc : chunk ≤ dumpBufSize) (seqs : List UInt32) (crc : UInt16)
    (buf : List UInt8) (w : World) (hk : Known fl₀ w.node) :
    ∃ recs, List.Forall₂ (Genuine fl₀ (dumpRest chunk seqs crc buf w).1.node.log) seqs recs ∧
      (dumpRest chunk seqs crc buf w).1.sent.flatten <+: w.stream buf ++
        recs.flatMap sntlEncodeRecord ++ crcBytes (sntlCrc16 crc (recs.flatMap sntlEncodeRecord)) ∧
      ((dumpRest chunk seqs crc buf w).2 = .done →
        (dumpRest chunk seqs crc buf w).1.sent.flatten = w.stream buf ++
          recs.flatMap sntlEncodeRecord ++
            crcBytes (sntlCrc16 crc (recs.flatMap sntlEncodeRecord))) ∧
      (dumpRest chunk seqs crc buf w).2 ≠ .overrun := by
  obtain ⟨recs, hall, hok, herr⟩ := dumpLoop_spec hc seqs crc buf w hk
  refine ⟨recs, ?_⟩
  unfold dumpRest
  rcases hl : dumpLoop chunk seqs crc buf w with ⟨w', e | ⟨crc', buf'⟩⟩
  · rw [hl] at hall herr
    obtain ⟨hs, hpre⟩ := herr e rfl
    refine ⟨hall, hpre.trans (List.prefix_append _ _), ?_, ?_⟩
    · rintro rfl
      simp [Stopped] at hs
    · rintro rfl
      simp [Stopped] at hs
  · rw [hl] at hall hok
    obtain ⟨hstream, rfl⟩ := hok crc' buf' rfl
    obtain ⟨hnode, ⟨tail, htail, hsent⟩, hdone, hin⟩ := dumpTrailer_spec hc
      (sntlCrc16 crc (recs.flatMap sntlEncodeRecord)) buf' w'
    rw [show w'.stream buf' = _ from hstream] at hsent hdone
    rw [show w'.node = _ from hnode.symm] at hall
    refine ⟨hall, ?_, hdone, hin⟩
    simp only
    rw [hsent]
    exact (List.prefix_append_right_inj _).2 htail

theorem dumpRest_ran {chunk : ℕ} (hc : chunk ≤ dumpBufSize) (seqs : List UInt32) (crc : UInt16)
    (buf : List UInt8) (w : World) : Ran w.node (dumpRest chunk seqs crc buf w).1.node := by
  have hloop := dumpLoop_ran hc seqs crc buf w
  unfold dumpRest
  rcases hl : dumpLoop chunk seqs crc buf w with ⟨w', e | ⟨crc', buf'⟩⟩
  · rw [hl] at hloop
    exact hloop
  · rw [hl] at hloop
    have htrailer := (dumpTrailer_spec hc crc' buf' w').1
    simp only
    rw [htrailer]
    exact hloop

/-! ## No notification fails -/

/-- Every attempt is accepted, or comes too early on a link that stays up. -/
def Steady (link : List Attempt) : Prop :=
  ∀ a ∈ link, 0 ≤ a.rc ∨ (a.rc = -enomem ∧ a.connected = true)

/-- How many notifications a link still accepts. -/
def accepts (link : List Attempt) : ℕ := link.countP fun a => decide (0 ≤ a.rc)

theorem notifyChunk_steady {link : List Attempt} (h : Steady link) {k : ℕ}
    (hk : k + 1 ≤ accepts link) :
    ∃ rc link', notifyChunk link = some (rc, link') ∧ 0 ≤ rc ∧ Steady link' ∧
      k ≤ accepts link' := by
  induction link with
  | nil => simp [accepts] at hk
  | cons a as ih =>
    have hrest : Steady as := fun b hb => h b (List.mem_cons_of_mem _ hb)
    rcases h a List.mem_cons_self with hrc | ⟨hrc, hcon⟩
    · refine ⟨a.rc, as, ?_, hrc, hrest, ?_⟩
      · rw [notifyChunk, if_neg (by unfold enomem; omega)]
      · unfold accepts at hk ⊢
        rw [List.countP_cons_of_pos (by simpa using hrc)] at hk
        omega
    · rw [notifyChunk, if_pos hrc, if_pos hcon]
      refine ih hrest ?_
      unfold accepts at hk ⊢
      rwa [List.countP_cons_of_neg (by rw [hrc]; decide)] at hk

theorem notify_steady {w : World} (h : Steady w.link) {k : ℕ} (hk : k + 1 ≤ accepts w.link)
    (buf : List UInt8) :
    (w.notify buf).2 = none ∧ Steady (w.notify buf).1.link ∧ k ≤ accepts (w.notify buf).1.link := by
  obtain ⟨rc, link', hn, hrc, hs, hk'⟩ := notifyChunk_steady h hk
  unfold World.notify
  simp only [hn]
  exact ⟨if_neg (by omega), hs, hk'⟩

theorem flush_steady {w : World} (h : Steady w.link) {k : ℕ} (hk : k + 1 ≤ accepts w.link)
    (chunk need : ℕ) (buf : List UInt8) :
    ∃ w' buf', w.flush chunk need buf = (w', .ok buf') ∧ Steady w'.link ∧ k ≤ accepts w'.link := by
  unfold World.flush
  by_cases hfit : buf.length + need > chunk
  · obtain ⟨hn, hs, hk'⟩ := notify_steady h hk buf
    rw [if_pos hfit]
    rcases hw : w.notify buf with ⟨w', o⟩
    rw [hw] at hn hs hk'
    simp only at hn
    subst hn
    exact ⟨w', [], rfl, hs, hk'⟩
  · rw [if_neg hfit]
    exact ⟨w, buf, rfl, h, by omega⟩

theorem dumpLoop_steady {chunk : ℕ} (hc : chunk ≤ dumpBufSize) (seqs : List UInt32) (crc : UInt16)
    (buf : List UInt8) {w : World} (h : Steady w.link) {k : ℕ}
    (hk : seqs.length + k ≤ accepts w.link) :
    ∃ w' crc' buf', dumpLoop chunk seqs crc buf w = (w', .ok (crc', buf')) ∧ Steady w'.link ∧
      k ≤ accepts w'.link := by
  induction seqs generalizing crc buf w with
  | nil => exact ⟨w, crc, buf, rfl, h, by simpa using hk⟩
  | cons seq seqs ih =>
    have hlink := (get_spec w seq).1.link
    obtain ⟨w', buf', hf, hs, hk'⟩ := flush_steady (w := (w.get seq).2) (by rw [hlink]; exact h)
      (k := seqs.length + k) (by rw [hlink]; simp only [List.length_cons] at hk; omega)
      chunk sntlRecordSize buf
    rw [dumpLoop_go hc hf]
    exact ih _ _ hs hk'

theorem dumpTrailer_steady {chunk : ℕ} (hc : chunk ≤ dumpBufSize) (crc : UInt16) (buf : List UInt8)
    {w : World} (h : Steady w.link) (hk : 2 ≤ accepts w.link) :
    (dumpTrailer chunk crc buf w).2 = .done := by
  obtain ⟨w', buf', hf, hs, hk'⟩ := flush_steady h hk chunk sntlCrcSize buf
  have hroom := ((flush_spec w chunk sntlCrcSize buf).2.1 buf' (by rw [hf])).2
  have hplace : place buf' (crcBytes crc) = .ok (buf' ++ crcBytes crc) :=
    place_ok hc (show 2 ≤ dumpBufSize by decide) hroom
  have hnone := (notify_steady hs hk' (buf' ++ crcBytes crc)).1
  rw [dumpTrailer]
  simp only [hf, hplace]
  rcases hn : w'.notify (buf' ++ crcBytes crc) with ⟨w₂, _ | e⟩
  · rfl
  · rw [hn] at hnone
    simp at hnone

theorem dumpRest_steady {chunk : ℕ} (hc : chunk ≤ dumpBufSize) (seqs : List UInt32) (crc : UInt16)
    (buf : List UInt8) {w : World} (h : Steady w.link) (hk : seqs.length + 2 ≤ accepts w.link) :
    (dumpRest chunk seqs crc buf w).2 = .done := by
  obtain ⟨w', crc', buf', hl, hs, hk'⟩ := dumpLoop_steady hc seqs crc buf h hk
  unfold dumpRest
  simp only [hl]
  exact dumpTrailer_steady hc crc' buf' hs hk'

/-! ## The dump -/

/-- The dump thread's view when it begins: nothing sent, nothing stored since. -/
def World.start (fl : Flash) (ram : Ram) (pc : AppendPc SntlRecord)
    (sched : List (List (MainStep SntlRecord))) (link : List Attempt) : World :=
  ⟨⟨fl, ram, pc, []⟩, sched, link, []⟩

theorem seqRange_eq {start : UInt32} {count : UInt16} (h : start.toNat + count.toNat < 2 ^ 32) :
    seqRange start (start + count.toUInt32) =
      (List.range count.toNat).map fun i => start + .ofNat i := by
  unfold seqRange
  rw [UInt32.toNat_add, UInt16.toNat_toUInt32, Nat.mod_eq_of_lt h, Nat.add_sub_cancel_left]

theorem dumpRun_eq {deviceId : List UInt8} {mtu : UInt16} {nextFirst : Bool} {firstSeq : UInt32}
    {w w' : World} {count : UInt16} {start : UInt32}
    (hr : dumpRange nextFirst firstSeq w = ((count, start), w')) :
    dumpRun deviceId mtu nextFirst firstSeq w =
      dumpRest (dumpChunk mtu) (seqRange start (start + count.toUInt32))
        (sntlCrc16 0xFFFF (sntlEncodeHeader count deviceId)) (sntlEncodeHeader count deviceId)
        w' := by
  unfold dumpRun
  simp only [hr]

/-- **What a dump must be**, when it was asked for the range `range` and left `w` and `e`:
`recs` are the records of its frame. -/
structure IsDump (fl : Flash) (link : List Attempt) (deviceId : List UInt8)
    (range : UInt16 × UInt32) (w : World) (e : DumpEnd) (recs : List SntlRecord) : Prop where
  /-- No seq of the range wraps. -/
  range_lt : range.2.toNat + range.1.toNat < 2 ^ 32
  length : recs.length = range.1.toNat
  /-- The records are those of the range, in order. -/
  genuine : ∀ (i : ℕ) (hi : i < recs.length),
    Genuine fl w.node.log (range.2 + .ofNat i) (recs.get ⟨i, hi⟩)
  size : (wireFrame deviceId recs).length = sntlFrameSize range.1
  /-- The buffers make up a beginning of the frame. -/
  sent : w.sent.flatten <+: wireFrame deviceId recs
  /-- A dump that gets to its end has sent all of it. -/
  whole : e = .done → w.sent.flatten = wireFrame deviceId recs
  /-- It gets there when no notification fails. -/
  ends : Steady link → range.1.toNat + 2 ≤ accepts link → e = .done
  /-- Nothing is stored outside the buffer. -/
  inside : e ≠ .overrun

/-- The records the loop runs over, one by one. -/
theorem genuine_get {log : List SntlRecord} {start : UInt32} {n : ℕ} {recs : List SntlRecord}
    (h : List.Forall₂ (Genuine fl₀ log) ((List.range n).map fun i => start + .ofNat i) recs) (i : ℕ)
    (hi : i < recs.length) : Genuine fl₀ log (start + .ofNat i) (recs.get ⟨i, hi⟩) := by
  have hlen := h.length_eq
  have hget := h.get (by rw [hlen]; exact hi) hi
  simpa using hget

/-- **A dump is one frame**, from any world in which nothing was sent yet. -/
theorem dumpRun_isDump {w : World} (hk : Known fl₀ w.node) (hsent : w.sent = [])
    (deviceId : List UInt8) (mtu : UInt16) (nextFirst : Bool) (firstSeq : UInt32) :
    ∃ recs, IsDump fl₀ w.link deviceId (dumpRange nextFirst firstSeq w).1
      (dumpRun deviceId mtu nextFirst firstSeq w).1
      (dumpRun deviceId mtu nextFirst firstSeq w).2 recs := by
  obtain ⟨hlater, hlt⟩ := dumpRange_spec nextFirst firstSeq w
  rcases hr : dumpRange nextFirst firstSeq w with ⟨⟨count, start⟩, w'⟩
  rw [hr] at hlater hlt
  rw [dumpRun_eq hr]
  have hstream : w'.stream (sntlEncodeHeader count deviceId) = sntlEncodeHeader count deviceId := by
    unfold World.stream
    rw [hlater.sent, hsent]
    rfl
  obtain ⟨recs, hall, hpre, hdone, hin⟩ := dumpRest_spec (dumpChunk_le mtu)
    (seqRange start (start + count.toUInt32)) (sntlCrc16 0xFFFF (sntlEncodeHeader count deviceId))
    (sntlEncodeHeader count deviceId) w' (hlater.node.onward.known fl₀ hk)
  have hends := fun h hk => dumpRest_steady (dumpChunk_le mtu)
    (seqRange start (start + count.toUInt32)) (sntlCrc16 0xFFFF (sntlEncodeHeader count deviceId))
    (sntlEncodeHeader count deviceId) (w := w') h hk
  have hrange : seqRange start (start + count.toUInt32) =
      (List.range count.toNat).map fun i => start + .ofNat i := seqRange_eq hlt
  have hlen : recs.length = count.toNat := by
    rw [← hall.length_eq, hrange, List.length_map, List.length_range]
  have hbody : sntlEncodeHeader count deviceId ++ recs.flatMap sntlEncodeRecord =
      frameBody deviceId recs := by
    unfold frameBody
    rw [hlen, UInt16.ofNat_toNat]
  have hframe : wireFrame deviceId recs = frameBody deviceId recs ++ crcBytes
      (sntlCrc16 (sntlCrc16 0xFFFF (sntlEncodeHeader count deviceId))
        (recs.flatMap sntlEncodeRecord)) := by
    rw [← sntlCrc16_append, hbody, crcBytes_eq]
    rfl
  have hsize : (wireFrame deviceId recs).length = sntlFrameSize count := by
    rw [wireFrame_length deviceId (by rw [hlen]; exact count.toNat_lt), hlen, UInt16.ofNat_toNat]
  rw [hstream, hbody, ← hframe] at hpre hdone
  rw [hrange, hlater.link, List.length_map, List.length_range] at hends
  refine ⟨recs, hlt, hlen, ?_, hsize, hpre, hdone, ?_, hin⟩
  · -- the `i`-th seq of the range is `start + i`, as nothing wraps
    rw [hrange] at hall ⊢
    exact genuine_get hall
  · rw [hrange]
    exact hends

/-- **A dump is one frame**, for any flash, static variables, append in progress, schedule
of the main loop, link, MTU and asked seq. -/
theorem dump_stream (fl : Flash) (ram : Ram) (pc : AppendPc SntlRecord)
    (sched : List (List (MainStep SntlRecord))) (link : List Attempt) (deviceId : List UInt8)
    (mtu : UInt16) (nextFirst : Bool) (firstSeq : UInt32) :
    ∃ recs, IsDump fl link deviceId
      (dumpRange nextFirst firstSeq (.start fl ram pc sched link)).1
      (dumpRun deviceId mtu nextFirst firstSeq (.start fl ram pc sched link)).1
      (dumpRun deviceId mtu nextFirst firstSeq (.start fl ram pc sched link)).2 recs := by
  have hknown : Known fl (World.start fl ram pc sched link).node := fun s r hs _ => Or.inl hs
  exact dumpRun_isDump hknown rfl deviceId mtu nextFirst firstSeq

end PresenceNode
