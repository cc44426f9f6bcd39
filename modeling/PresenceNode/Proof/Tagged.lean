import PresenceNode.Proof.Dump
import PresenceNode.Proof.Record
import PresenceNode.Spec.Tagged

/-!
# Every record that is read is tagged

* `flushed_tagged`: what `window_flush` makes is tagged.
* `life_tagged`: so is every record in flash, in any life of the store.
* `run_marked`, `get_marked`: the same for the main loop's steps under a dump, and for its reads.
* `dumpRun_placed`: the frame is header, the records placed, and the CRC.
* `tagged_iff`: the records of a frame are all tagged if and only if every read succeeded.
-/

namespace PresenceNode

open LittleEndian

/-! ## The records of this firmware -/

/-- The two counters the flags depend on, over any history. -/
theorem accAfter_counts (past : List RadarEvent) :
    (accAfter past).frames.toNat = (sinceTake past).length % 65536 ∧
      (accAfter past).anyTracker = (sinceTake past).any Decided.tracker := by
  induction past with
  | nil => exact ⟨rfl, rfl⟩
  | cons e past ih =>
    cases e with
    | frame d now =>
      simp only [accAfter, Acc.step, sinceTake, List.length_cons, List.any_cons]
      refine ⟨?_, ?_⟩
      · rw [onFrame_frames, UInt16.toNat_add, ih.1, UInt16.toNat_one]
        omega
      · rw [onFrame_anyTracker, ih.2]
    | take now => exact ⟨rfl, rfl⟩

/-- **What `window_flush` makes is tagged.** -/
theorem flushed_tagged {rec : SntlRecord} (h : Flushed rec) : rec.Tagged := by
  obtain ⟨ready, cmd, past, now, status, hwrap⟩ := h
  rw [windowFlush_record]
  refine ⟨windowRecord_rtcUnset _ _, ?_⟩
  rw [windowRecord_sensorFault, windowRecord_noTracker, sensorsAfter_acc]
  obtain ⟨hframes, htracker⟩ := accAfter_counts (radarPast past)
  intro hdead
  have hzero : (sinceTake (radarPast past)).length % 65536 = 0 := by
    have hle : ¬ (accAfter (radarPast past)).frames > 0 := of_decide_eq_false hdead
    rw [gt_iff_lt, UInt16.lt_iff_toNat_lt, UInt16.toNat_zero] at hle
    omega
  show (accAfter (radarPast past)).anyTracker = false
  rw [htracker, List.any_eq_false]
  intro d hd
  rw [hwrap hzero d hd]
  exact Bool.false_ne_true

/-! ## The life of the store -/

/-- The store fills in `seq` and `ts` only. -/
theorem stamped_tagged {rec : SntlRecord} (h : rec.Tagged) (ram : Ram) (up : ℕ) :
    (stamped sntlLayout ram up rec).Tagged := h

/-- **The life of a store** whose records come from `window_flush`. -/
theorem life_tagged {evs : List (Event SntlRecord)} (hev : ∀ e ∈ evs, e.Flushed)
    {l : Life SntlRecord} (h : Holds sntlLayout SntlRecord.Tagged l.flash) :
    Holds sntlLayout SntlRecord.Tagged (l.run sntlLayout evs).flash := by
  induction evs generalizing l with
  | nil => exact h
  | cons e evs ih =>
    rw [Life.run_cons]
    apply ih fun e' he' => hev e' (List.mem_cons_of_mem _ he')
    have hfl := hev e List.mem_cons_self
    cases e with
    | boot fates =>
      have hkeep := storeInit_keeps l.flash fates h
      simp only [Life.step]
      cases hrun : (storeInit sntlLayout).run l.flash fates with
      | ret a fl fs =>
        rw [hrun] at hkeep
        exact hkeep
      | cut fl =>
        rw [hrun] at hkeep
        exact hkeep
    | append rec up fates =>
      simp only [Life.step]
      cases hram : l.ram with
      | none => exact h
      | some ram =>
        have hkeep := storeAppend_keeps (stamped_tagged (flushed_tagged hfl) ram up) l.flash fates h
        simp only
        cases hrun : (storeAppend sntlLayout ram rec up).run l.flash fates with
        | ret a fl fs =>
          rw [hrun] at hkeep
          exact hkeep
        | cut fl =>
          rw [hrun] at hkeep
          exact hkeep
    | get seq =>
      simp only [Life.step]
      cases l.ram with
      | none => exact h
      | some ram =>
        simp only [Life.answer]
        split <;> split <;> exact h
    | off => exact h

/-! ## Under a dump -/

/-- The record an append is about to write. -/
def AppendPc.Tagged : AppendPc SntlRecord → Prop
  | .locked out => out.Tagged
  | _ => True

/-- **All that a node holds is tagged**, and what it is about to hold. -/
structure Marked (n : Node SntlRecord) : Prop where
  flash : Holds sntlLayout SntlRecord.Tagged n.flash
  pc : n.pc.Tagged

theorem step_marked {n : Node SntlRecord} (h : Marked n) {s : MainStep SntlRecord}
    (hs : s.Flushed) : Marked (n.step sntlLayout s) := by
  obtain ⟨hflash, hpc⟩ := h
  cases s with
  | append rec up =>
    simp only [Node.step]
    cases n.pc with
    | idle => exact ⟨hflash, stamped_tagged (flushed_tagged hs) n.ram up⟩
    | _ => exact ⟨hflash, hpc⟩
  | go ok =>
    simp only [Node.step]
    cases hn : n.pc with
    | idle => exact ⟨hflash, hpc⟩
    | locked out =>
      rw [hn] at hpc
      simp only
      split_ifs
      · exact ⟨holds_putRec hpc hflash, trivial⟩
      · exact ⟨hflash, trivial⟩
    | wrote out => exact ⟨hflash, trivial⟩
    | bumped =>
      simp only
      split_ifs
      · exact ⟨holds_update (by decide) _ hflash, trivial⟩
      · exact ⟨hflash, trivial⟩

theorem run_marked {n : Node SntlRecord} (h : Marked n) {steps : List (MainStep SntlRecord)}
    (hs : ∀ s ∈ steps, s.Flushed) : Marked (n.run sntlLayout steps) := by
  induction steps generalizing n with
  | nil => exact h
  | cons s steps ih =>
    rw [Node.run_cons]
    exact ih (step_marked h (hs s List.mem_cons_self))
      fun s' hs' => hs s' (List.mem_cons_of_mem _ hs')

/-- A world whose node is marked, and stays so. -/
structure World.Marked (w : World) : Prop where
  node : PresenceNode.Marked w.node
  sched : ∀ steps ∈ w.sched, ∀ s ∈ steps, s.Flushed

theorem yield_marked {w : World} (h : w.Marked) : w.yield.Marked := by
  unfold World.yield
  split
  · exact h
  · rename_i steps sched hsched
    have hall := h.sched
    rw [hsched] at hall
    exact ⟨run_marked h.node (hall steps List.mem_cons_self),
      fun steps' hs' => hall steps' (List.mem_cons_of_mem _ hs')⟩

theorem loadNext_marked {w : World} (h : w.Marked) : w.loadNext.2.Marked := yield_marked h

theorem loadOldest_marked {w : World} (h : w.Marked) : w.loadOldest.2.Marked := by
  unfold World.loadOldest
  simp only
  split
  · exact loadNext_marked (loadNext_marked h)
  · exact loadNext_marked h

theorem acquire_marked {w : World} (h : w.Marked) : w.acquire.Marked := by
  have go : ∀ (sched : List (List (MainStep SntlRecord))) (node : Node SntlRecord),
      PresenceNode.Marked node → (∀ steps ∈ sched, ∀ s ∈ steps, s.Flushed) →
        (World.acquire.go w sched node).Marked := by
    intro sched
    induction sched with
    | nil =>
      intro node hn hsched
      refine ⟨run_marked hn ?_, by simp [World.acquire.go]⟩
      simp [MainStep.Flushed]
    | cons steps sched ih =>
      intro node hn hsched
      have hn' := run_marked hn (hsched steps List.mem_cons_self)
      have hsched' : ∀ steps' ∈ sched, ∀ s ∈ steps', s.Flushed :=
        fun steps' hs' => hsched steps' (List.mem_cons_of_mem _ hs')
      unfold World.acquire.go
      simp only
      split
      · exact ⟨hn', hsched'⟩
      · exact ih _ hn' hsched'
  exact go _ _ h.node h.sched

theorem dumpRange_marked {w : World} (h : w.Marked) (nextFirst : Bool) (firstSeq : UInt32) :
    (dumpRange nextFirst firstSeq w).2.Marked := by
  unfold dumpRange
  cases nextFirst with
  | true => exact loadOldest_marked (loadNext_marked h)
  | false => exact loadNext_marked (loadOldest_marked h)

/-- **A read** of a marked node gives a tagged record, if it gives one. -/
theorem get_marked {w : World} (h : w.Marked) (seq : UInt32) :
    (w.get seq).2.Marked ∧ ∀ r, (w.get seq).1 = .ok r → r.Tagged := by
  have hmarked : (w.get seq).2.Marked := by
    unfold World.get
    simp only
    split
    · exact loadNext_marked h
    split
    · exact loadOldest_marked (loadNext_marked h)
    · exact acquire_marked (loadOldest_marked (loadNext_marked h))
  refine ⟨hmarked, ?_⟩
  intro r hr
  exact hmarked.node.flash seq r ((get_spec w seq).2 r hr).1

theorem notify_sched (w : World) (buf : List UInt8) : (w.notify buf).1.sched = w.sched := by
  unfold World.notify
  simp only
  cases notifyChunk w.link <;> rfl

theorem flush_marked {w : World} (h : w.Marked) (chunk need : ℕ) (buf : List UInt8) :
    (w.flush chunk need buf).1.Marked := by
  have hsched : (w.flush chunk need buf).1.sched = w.sched := by
    have hn := notify_sched w buf
    unfold World.flush
    split_ifs
    · rcases hw : w.notify buf with ⟨w', _ | e⟩
      · rw [hw] at hn
        exact hn
      · rw [hw] at hn
        exact hn
    · rfl
  refine ⟨?_, ?_⟩
  · rw [(flush_spec w chunk need buf).1]
    exact h.node
  · rw [hsched]
    exact h.sched

/-! ## The records placed -/

/-- The placeholder is not tagged. -/
theorem faultRecord_untagged (seq : UInt32) : ¬ (faultRecord seq).Tagged := by
  intro h
  exact h.1 (show (sntlFlagSensorFault ||| sntlFlagAqFault) &&& sntlFlagRtcUnset = 0 by decide)

section Loop

variable {chunk : ℕ} {seq : UInt32} {seqs : List UInt32} {buf buf' : List UInt8} {w w' : World}
  {e : DumpEnd}

theorem dumpPlaced_stop (hf : (w.get seq).2.flush chunk sntlRecordSize buf = (w', .error e)) :
    dumpPlaced chunk (seq :: seqs) buf w = [] := by
  rw [dumpPlaced]
  simp only [hf]

theorem dumpPlaced_go (hc : chunk ≤ dumpBufSize)
    (hf : (w.get seq).2.flush chunk sntlRecordSize buf = (w', .ok buf')) :
    dumpPlaced chunk (seq :: seqs) buf w = (seq, (w.get seq).1) ::
      dumpPlaced chunk seqs (buf' ++ sntlEncodeRecord (recordOf seq (w.get seq).1)) w' := by
  have hplace := place_record hc hf
  rw [dumpPlaced]
  simp only [hf, hplace]

end Loop

/-- The records of some answers. -/
def recordsOf (answers : List (UInt32 × Except ℤ SntlRecord)) : List SntlRecord :=
  answers.map fun p => recordOf p.1 p.2

/-- **The loop** adds the records it places to the stream, and nothing else. -/
theorem dumpLoop_placed {chunk : ℕ} (hc : chunk ≤ dumpBufSize) (seqs : List UInt32) (crc : UInt16)
    (buf : List UInt8) (w : World) :
    (∀ crc' buf', (dumpLoop chunk seqs crc buf w).2 = .ok (crc', buf') →
      (dumpLoop chunk seqs crc buf w).1.stream buf' = w.stream buf ++
        (recordsOf (dumpPlaced chunk seqs buf w)).flatMap sntlEncodeRecord) ∧
    ∀ e, (dumpLoop chunk seqs crc buf w).2 = .error e →
      (dumpLoop chunk seqs crc buf w).1.sent.flatten = w.stream buf ++
        (recordsOf (dumpPlaced chunk seqs buf w)).flatMap sntlEncodeRecord := by
  induction seqs generalizing crc buf w with
  | nil =>
    refine ⟨?_, by simp [dumpLoop]⟩
    intro crc' buf' h
    simp only [dumpLoop, Except.ok.injEq, Prod.mk.injEq] at h
    obtain ⟨rfl, rfl⟩ := h
    exact (List.append_nil _).symm
  | cons seq seqs ih =>
    have hstream := get_stream w seq buf
    obtain ⟨-, -, hstop⟩ := flush_spec (w.get seq).2 chunk sntlRecordSize buf
    rcases hf : (w.get seq).2.flush chunk sntlRecordSize buf with ⟨w', e | buf'⟩
    · rw [hf] at hstop
      rw [dumpLoop_stop hf, dumpPlaced_stop hf]
      refine ⟨by simp, fun e' he => ?_⟩
      have hsent := (hstop e rfl).2
      show w'.sent.flatten = w.stream buf ++ []
      rw [List.append_nil, ← hstream]
      exact hsent
    · rw [dumpLoop_go hc hf, dumpPlaced_go hc hf]
      have hrest := ih (sntlCrc16 crc (sntlEncodeRecord (recordOf seq (w.get seq).1)))
        (buf' ++ sntlEncodeRecord (recordOf seq (w.get seq).1)) w'
      rw [round_stream hf, List.append_assoc] at hrest
      exact hrest

/-- **The frame is its placed records**: header, records, and at most the CRC after them. -/
theorem dumpRun_placed {w : World} (hsent : w.sent = []) (deviceId : List UInt8) (mtu : UInt16)
    (nextFirst : Bool) (firstSeq : UInt32) :
    ∃ header tail, header.length = sntlHeaderSize ∧ tail.length ≤ sntlCrcSize ∧
      (dumpRun deviceId mtu nextFirst firstSeq w).1.sent.flatten = header ++
        (dumpRecords deviceId mtu nextFirst firstSeq w).flatMap sntlEncodeRecord ++ tail := by
  obtain ⟨hlater, -⟩ := dumpRange_spec nextFirst firstSeq w
  rcases hr : dumpRange nextFirst firstSeq w with ⟨⟨count, start⟩, w₁⟩
  rw [hr] at hlater
  have hstream : w₁.stream (sntlEncodeHeader count deviceId) = sntlEncodeHeader count deviceId := by
    unfold World.stream
    rw [hlater.sent, hsent]
    rfl
  obtain ⟨hok, herr⟩ := dumpLoop_placed (dumpChunk_le mtu)
    (seqRange start (start + count.toUInt32)) (sntlCrc16 0xFFFF (sntlEncodeHeader count deviceId))
    (sntlEncodeHeader count deviceId) w₁
  have hrecs : dumpRecords deviceId mtu nextFirst firstSeq w =
      recordsOf (dumpPlaced (dumpChunk mtu) (seqRange start (start + count.toUInt32))
        (sntlEncodeHeader count deviceId) w₁) := by
    unfold dumpRecords dumpAnswers
    rw [hr]
    rfl
  rw [hstream, ← hrecs] at hok herr
  rw [dumpRun_eq hr]
  unfold dumpRest
  rcases hl : dumpLoop (dumpChunk mtu) (seqRange start (start + count.toUInt32))
    (sntlCrc16 0xFFFF (sntlEncodeHeader count deviceId)) (sntlEncodeHeader count deviceId)
    w₁ with ⟨w₂, e | ⟨crc, buf⟩⟩
  · rw [hl] at herr
    refine ⟨_, [], sntlEncodeHeader_length count deviceId, Nat.zero_le _, ?_⟩
    rw [List.append_nil]
    exact herr e rfl
  · rw [hl] at hok
    obtain ⟨-, ⟨tail, htail, hout⟩, -⟩ := dumpTrailer_spec (dumpChunk_le mtu) crc buf w₂
    refine ⟨_, tail, sntlEncodeHeader_length count deviceId, htail.length_le, ?_⟩
    simp only
    rw [hout]
    exact congrArg (· ++ tail) (hok crc buf rfl)

/-- In a marked world what is placed is tagged exactly where it was read. -/
theorem dumpPlaced_tagged {chunk : ℕ} (hc : chunk ≤ dumpBufSize) (seqs : List UInt32)
    (buf : List UInt8) {w : World} (h : w.Marked) :
    ∀ p ∈ dumpPlaced chunk seqs buf w, (recordOf p.1 p.2).Tagged ↔ ∃ r, p.2 = .ok r := by
  induction seqs generalizing buf w with
  | nil => simp [dumpPlaced]
  | cons seq seqs ih =>
    obtain ⟨hmarked, htagged⟩ := get_marked h seq
    have hnext := flush_marked hmarked chunk sntlRecordSize buf
    rcases hf : (w.get seq).2.flush chunk sntlRecordSize buf with ⟨w', e | buf'⟩
    · rw [dumpPlaced_stop hf]
      simp
    · rw [hf] at hnext
      rw [dumpPlaced_go hc hf]
      intro p hp
      rcases List.mem_cons.1 hp with rfl | hp
      · cases ha : (w.get seq).1 with
        | ok r => exact ⟨fun _ => ⟨r, rfl⟩, fun _ => htagged r ha⟩
        | error e =>
          refine ⟨fun ht => absurd ht (faultRecord_untagged seq), ?_⟩
          rintro ⟨r, hr⟩
          simp at hr
      · exact ih _ hnext p hp

/-! ## The result -/

/-- **Every record of a frame is tagged if and only if every read of the dump succeeded**,
in any life of a node whose records come from `window_flush`, from a partition without
records of this format. -/
theorem tagged_iff {fl : Flash} (hblank : Blank sntlLayout fl) {evs : List (Event SntlRecord)}
    (hev : ∀ e ∈ evs, e.Flushed) (ram : Ram) {before : List (MainStep SntlRecord)}
    (hbefore : ∀ s ∈ before, s.Flushed) {sched : List (List (MainStep SntlRecord))}
    (hsched : ∀ steps ∈ sched, ∀ s ∈ steps, s.Flushed) (link : List Attempt)
    (deviceId : List UInt8) (mtu : UInt16) (nextFirst : Bool) (firstSeq : UInt32) :
    let w := ((Life.start fl).run sntlLayout evs).dumping ram before sched link
    (∃ header tail, header.length = sntlHeaderSize ∧ tail.length ≤ sntlCrcSize ∧
      (dumpRun deviceId mtu nextFirst firstSeq w).1.sent.flatten = header ++
        (dumpRecords deviceId mtu nextFirst firstSeq w).flatMap sntlEncodeRecord ++ tail) ∧
    ((∀ r ∈ dumpRecords deviceId mtu nextFirst firstSeq w, r.Tagged) ↔
      ∀ p ∈ dumpAnswers deviceId mtu nextFirst firstSeq w, ∃ r, p.2 = .ok r) := by
  intro w
  have hstart : Holds sntlLayout SntlRecord.Tagged (Life.start fl : Life SntlRecord).flash := by
    intro s r hs
    have hnone : recAt sntlLayout (Life.start fl : Life SntlRecord).flash s = none := hblank s
    rw [hnone] at hs
    simp at hs
  have hnode : Marked ⟨((Life.start fl).run sntlLayout evs).flash, ram, .idle, []⟩ :=
    ⟨life_tagged hev hstart, trivial⟩
  have hw : w.Marked := ⟨run_marked hnode hbefore, hsched⟩
  refine ⟨dumpRun_placed rfl deviceId mtu nextFirst firstSeq, ?_⟩
  have hplaced := dumpPlaced_tagged (dumpChunk_le mtu)
    (seqRange (dumpRange nextFirst firstSeq w).1.2
      ((dumpRange nextFirst firstSeq w).1.2 + (dumpRange nextFirst firstSeq w).1.1.toUInt32))
    (sntlEncodeHeader (dumpRange nextFirst firstSeq w).1.1 deviceId)
    (dumpRange_marked hw nextFirst firstSeq)
  constructor
  · intro hall p hp
    refine (hplaced p hp).1 (hall _ ?_)
    exact List.mem_map_of_mem hp
  · intro hall r hr
    obtain ⟨p, hp, rfl⟩ := List.mem_map.1 hr
    exact (hplaced p hp).2 (hall p hp)

/-- A partition of another format, with its counter at 1. -/
def flashOld : Flash :=
  Function.update (Function.update (fun _ => none) nvsIdFormat (some (enc 2 20)))
    nvsIdMeta (some (Meta.image ⟨1, 30⟩))

theorem flashOld_blank : Blank sntlLayout flashOld := by
  intro s
  obtain ⟨hmeta, hformat, -⟩ := recId_gt s
  unfold recAt flashOld
  rw [Function.update_of_ne hmeta.symm, Function.update_of_ne hformat.symm]

/-- The record of a window in which only the SEN5x was read. -/
theorem quietAir_flushed :
    Flushed (windowFlush (sensorsAfter (sen5xStart true 0).2 [.poll quietAir]) 30000 quietAir).1 := by
  apply Flushed.flush
  intro _ d hd
  simp [radarPast, sinceTake] at hd

/-- An upgrade, and the first record after it. -/
def upgraded : List (Event SntlRecord) :=
  [.boot [], .append (windowFlush (sensorsAfter (sen5xStart true 0).2 [.poll quietAir]) 30000
    quietAir).1 30000 []]

theorem tagged_iff_upgraded :
    (dumpRecords [0x50] 247 false 0
      (((Life.start flashOld).run sntlLayout upgraded).dumping ⟨true, ⟨2, 60⟩, 30, 1⟩
        [] [] [])).length = 1 ∧
    ∀ r ∈ dumpRecords [0x50] 247 false 0
      (((Life.start flashOld).run sntlLayout upgraded).dumping ⟨true, ⟨2, 60⟩, 30, 1⟩ [] [] []),
      r.Tagged := by
  have hev : ∀ e ∈ upgraded, e.Flushed := by
    simp [upgraded, Event.Flushed, quietAir_flushed]
  have hiff := (@tagged_iff _ flashOld_blank _ hev ⟨true, ⟨2, 60⟩, 30, 1⟩ [] (by simp) []
    (by simp) [] [0x50] 247 false 0).2
  refine ⟨by decide +kernel, hiff.2 ?_⟩
  have hread : ∀ p ∈ dumpAnswers [0x50] 247 false 0
      (((Life.start flashOld).run sntlLayout upgraded).dumping ⟨true, ⟨2, 60⟩, 30, 1⟩ [] [] []),
      p.2.isOk = true := by
    decide +kernel
  intro p hp
  have hok := hread p hp
  cases ha : p.2 with
  | ok r => exact ⟨r, rfl⟩
  | error e => simp [ha, Except.isOk, Except.toBool] at hok

/-- **The untagged placeholder**: the upgrade cannot erase the partition, the node runs on,
and what it cannot read it sends as a record with a clock and a count. -/
theorem placeholder_untagged : ¬ ∀ (fl : Flash) (evs : List (Event SntlRecord)) (ram : Ram)
    (deviceId : List UInt8) (mtu : UInt16) (firstSeq : UInt32),
    Blank sntlLayout fl → (∀ e ∈ evs, e.Flushed) →
    ((Life.start fl).run sntlLayout evs).ram = some ram →
    ∀ r ∈ dumpRecords deviceId mtu false firstSeq
      (((Life.start fl).run sntlLayout evs).dumping ram [] [] [⟨0, true⟩]), r.Tagged := by
  intro h
  have htag := h flashOld [.boot [.ok, .ok, .ok, .fail 0]] ⟨true, ⟨1, 30⟩, 0, 0⟩ [0x50] 247 0
    flashOld_blank (by simp [Event.Flushed]) (by decide +kernel) (faultRecord 0)
    (by decide +kernel)
  exact faultRecord_untagged 0 htag

end PresenceNode
