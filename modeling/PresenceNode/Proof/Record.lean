import PresenceNode.Proof.Reasm
import PresenceNode.Proof.Window
import PresenceNode.Spec.Flush

/-!
# The records of the windows

* `decided_whole`: no frame that the reassembler hands on is read past its end.
* `sensorsAfter_acc`, `sensorsAfter_alive`: what the two accumulators hold after a history.
* `windowFlags_sensorFault` and its siblings: what each flag of a record says.
* `windowRecord_fault` and its siblings: how the fields of one record agree.
* `record_coherent`: the fields of every record agree with each other.
* `fault_reported_iff`: a fan or laser fault is flagged exactly when the status transaction
  succeeds.
-/

namespace PresenceNode

open LittleEndian

/-! ## Whole frames decode -/

theorem rdU32_some (bs : List UInt8) (off : ℕ) (h : off + 4 ≤ bs.length) :
    ∃ v, rdU32 bs off = some v ∧ v.toNat = dec ((bs.drop off).take 4) := by
  have hlen : 4 ≤ (bs.drop off).length := by rw [List.length_drop]; omega
  unfold rdU32
  match hd : bs.drop off with
  | b0 :: b1 :: b2 :: b3 :: _ => exact ⟨_, rfl, dec_le4 b0 b1 b2 b3⟩
  | [] => rw [hd] at hlen; simp at hlen
  | [_] => rw [hd] at hlen; simp at hlen
  | [_, _] => rw [hd] at hlen; simp at hlen
  | [_, _, _] => rw [hd] at hlen; simp at hlen

/-- The walk over the TLVs stays inside a frame that has the length it states. -/
theorem tlvFindFrom_some {frame : List UInt8} {total : ℕ} (hle : total ≤ frame.length)
    (type : UInt32) (off : ℕ) : ∃ found, tlvFindFrom frame total type off = some found := by
  induction h : total - off using Nat.strong_induction_on generalizing off with
  | _ n ih =>
    rw [tlvFindFrom]
    by_cases hfit : off + 8 ≤ total
    · obtain ⟨t, ht, -⟩ := rdU32_some frame off (by omega)
      obtain ⟨ln, hln, -⟩ := rdU32_some frame (off + 4) (by omega)
      rw [dif_pos hfit, ht, hln]
      simp only [Option.bind_eq_bind, Option.bind_some]
      split_ifs with hlie htype
      · exact ⟨_, rfl⟩
      · exact ⟨_, rfl⟩
      · exact ih _ (by omega) _ rfl
    · rw [dif_neg hfit]
      exact ⟨_, rfl⟩

theorem targetsOf_some {size : ℕ} (hsize : 16 ≤ size) (max : ℕ) (payload : List UInt8) :
    ∃ ts, targetsOf size max payload = some ts := by
  induction max generalizing payload with
  | zero => exact ⟨_, rfl⟩
  | succ max ih =>
    unfold targetsOf
    by_cases hfit : size ≤ payload.length
    · obtain ⟨tid, htid, -⟩ := rdU32_some payload 0 (by omega)
      obtain ⟨x, hx, -⟩ := rdU32_some payload 4 (by omega)
      obtain ⟨y, hy, -⟩ := rdU32_some payload 8 (by omega)
      obtain ⟨z, hz, -⟩ := rdU32_some payload 12 (by omega)
      have ht : ∃ t, targetAt size payload = some t := by
        unfold targetAt
        rw [htid, hx, hy, hz]
        split_ifs
        · exact ⟨_, rfl⟩
        · exact ⟨_, rfl⟩
      obtain ⟨t, ht⟩ := ht
      obtain ⟨ts, hts⟩ := ih (payload.drop size)
      rw [if_pos hfit, ht, hts]
      exact ⟨_, rfl⟩
    · rw [if_neg hfit]
      exact ⟨_, rfl⟩

theorem tlvTargets_some (payload : List UInt8) (max : ℕ) :
    ∃ ts, tlvTargets payload max = some ts := by
  unfold tlvTargets
  split_ifs
  · exact ⟨_, rfl⟩
  · exact targetsOf_some (by decide) _ _
  · exact targetsOf_some (by decide) _ _
  · exact ⟨_, rfl⟩

/-- **A whole frame is decided.** -/
theorem decided_whole {frame : List UInt8} (h : tlvFraming.IsFrame frame) :
    ∃ d, decided frame = some d := by
  have hlen : tlvHdrLen ≤ frame.length := h.ge
  obtain ⟨total, ht, htotal⟩ := rdU32_some frame 12
    (by simp only [tlvHdrLen] at hlen; omega)
  have hle : total.toNat ≤ frame.length := by
    rw [htotal]
    exact h.want.le
  have hfind : ∀ type, ∃ found, tlvFind frame type = some found := by
    intro type
    obtain ⟨found, hf⟩ := tlvFindFrom_some hle type tlvHdrLen
    unfold tlvFind
    rw [ht]
    exact ⟨found, hf⟩
  obtain ⟨list, hlist⟩ := hfind tlvTargetList
  obtain ⟨zones, hzones⟩ := hfind tlvEnhancedPresence
  unfold decided
  rw [hlist]
  cases list with
  | some payload =>
    obtain ⟨ts, hts⟩ := tlvTargets_some payload radarMaxTargets
    simp only [Option.bind_eq_bind, Option.bind_some, hts]
    exact ⟨_, rfl⟩
  | none =>
    simp only [Option.bind_eq_bind, Option.bind_some, hzones]
    cases zones with
    | none => exact ⟨_, rfl⟩
    | some payload =>
      simp only
      split_ifs
      · exact ⟨_, rfl⟩
      · exact ⟨_, rfl⟩

/-- A frame of 50 bytes with one TLV: a zone is occupied. -/
def presenceFrame : List UInt8 :=
  [2, 1, 4, 3, 6, 5, 8, 7, 0, 3, 5, 5, 50, 0, 0, 0, 50, 100, 10, 0, 7, 0, 0, 0] ++
    List.replicate 16 0 ++ [0x3B, 1, 0, 0, 2, 0, 0, 0, 1, 1]

theorem presenceFrame_decided : decided presenceFrame = some ⟨1, false, by decide⟩ := by
  have htotal : rdU32 presenceFrame 12 = some 50 := by decide
  have htype : rdU32 presenceFrame 40 = some tlvEnhancedPresence := by decide
  have hlen : rdU32 presenceFrame 44 = some 2 := by decide
  -- the search for targets passes over the only TLV
  have hlist : tlvFind presenceFrame tlvTargetList = some none := by
    have hend : tlvFindFrom presenceFrame 50 tlvTargetList 50 = some none := by
      rw [tlvFindFrom, dif_neg (by decide)]
    unfold tlvFind
    rw [htotal]
    simp only [Option.bind_eq_bind, Option.bind_some]
    rw [tlvFindFrom, dif_pos (by decide)]
    simp only [tlvHdrLen, htype, hlen, Option.bind_eq_bind, Option.bind_some]
    exact hend
  have hzones : tlvFind presenceFrame tlvEnhancedPresence = some (some [1, 1]) := by
    unfold tlvFind
    rw [htotal]
    simp only [Option.bind_eq_bind, Option.bind_some]
    rw [tlvFindFrom, dif_pos (by decide)]
    simp only [tlvHdrLen, htype, hlen, Option.bind_eq_bind, Option.bind_some]
    decide
  unfold decided
  rw [hlist]
  simp only [Option.bind_eq_bind, Option.bind_some, hzones]
  decide

/-! ## The sensors after a history -/

theorem sensorsAfter_acc (air : Sen5x) (past : List SensorEvent) :
    (sensorsAfter air past).acc = accAfter (radarPast past) := by
  induction past with
  | nil => rfl
  | cons e past ih =>
    cases e with
    | frame frame now =>
      simp only [sensorsAfter, Sensors.step, radarPast]
      cases decided frame with
      | none => exact ih
      | some d =>
        simp only [accAfter, Acc.step]
        rw [ih]
    | poll t => exact ih
    | flush now status =>
      simp only [sensorsAfter, Sensors.step, radarPast, accAfter, Acc.step]
      rw [← ih]
      rfl

theorem sen5xPoll_running (s : Sen5x) (t : Transfer) : (sen5xPoll s t).running = s.running := by
  unfold sen5xPoll
  split
  · split <;> rfl
  · rfl

theorem sensorsAfter_running (air : Sen5x) (past : List SensorEvent) :
    (sensorsAfter air past).air.running = air.running := by
  induction past with
  | nil => rfl
  | cons e past ih =>
    cases e with
    | frame frame now =>
      simp only [sensorsAfter, Sensors.step]
      split
      · exact ih
      · exact ih
    | poll t =>
      simp only [sensorsAfter, Sensors.step]
      rw [sen5xPoll_running]
      exact ih
    | flush now status => exact ih

/-- A transaction succeeds when it is good. -/
theorem readWords_ok_iff {t : Transfer} {words : ℕ} {w : ℕ → UInt16} :
    readWords t words = .ok w ↔ t.Good words ∧ w = t.word := by
  unfold readWords Transfer.Good
  by_cases hc : t.cmd = 0
  · rw [if_neg (not_not.2 hc)]
    by_cases hr : t.read = 0
    · rw [if_neg (not_not.2 hr)]
      by_cases hw : ∀ i < words, t.Checked i
      · rw [if_pos hw, Except.ok.injEq]
        exact ⟨fun h => ⟨⟨hc, hr, hw⟩, h.symm⟩, fun h => h.2.symm⟩
      · rw [if_neg hw]
        constructor
        · intro h; simp at h
        · rintro ⟨⟨-, -, h⟩, -⟩; exact absurd h hw
    · rw [if_pos hr]
      constructor
      · intro h; simp at h
      · rintro ⟨⟨-, h, -⟩, -⟩; exact absurd h hr
  · rw [if_pos hc]
    constructor
    · intro h; simp at h
    · rintro ⟨⟨h, -, -⟩, -⟩; exact absurd h hc

theorem sen5xPoll_alive (s : Sen5x) (t : Transfer) :
    (sen5xPoll s t).acc.alive = true ↔ s.acc.alive = true ∨ (s.running = true ∧ t.Good 8) := by
  unfold sen5xPoll
  cases s.running with
  | false => simp
  | true =>
    simp only [if_true, true_and]
    cases hr : readWords t 8 with
    | error e =>
      have hbad : ¬ t.Good 8 := by
        intro hg
        rw [readWords_ok_iff.2 ⟨hg, rfl⟩] at hr
        simp at hr
      simp [hbad]
    | ok w =>
      have hgood := (readWords_ok_iff.1 hr).1
      simp [hgood, Sen5xWindow.fold]

/-- **The SEN5x is alive** when a read succeeded in the window. -/
theorem sensorsAfter_alive {air : Sen5x} (hair : air.acc.alive = false) (past : List SensorEvent) :
    (sensorsAfter air past).air.acc.alive = true ↔ ReadSince air past := by
  unfold ReadSince
  induction past with
  | nil => simp [sensorsAfter, hair, pollsSince]
  | cons e past ih =>
    cases e with
    | frame frame now =>
      simp only [sensorsAfter, Sensors.step, pollsSince]
      split
      · exact ih
      · exact ih
    | poll t =>
      simp only [sensorsAfter, Sensors.step, pollsSince]
      rw [sen5xPoll_alive, ih, sensorsAfter_running]
      simp only [List.mem_cons, exists_eq_or_imp]
      rw [← and_or_left, or_comm]
    | flush now status =>
      simp [sensorsAfter, Sensors.step, windowFlush, sen5xWindowTake, Sen5xWindow.unknown,
        pollsSince]

/-- A transaction that reads zeros. -/
def quietAir : Transfer := ⟨0, 0, fun i => if i % 3 = 2 then 0x81 else 0⟩

theorem quietAir_good : quietAir.Good 8 := ⟨rfl, rfl, by decide +kernel⟩

/-! ## The flags of a record -/

variable {alive airAlive tracker : Bool}

theorem windowFlags_sensorFault :
    windowFlags alive airAlive tracker &&& sntlFlagSensorFault ≠ 0 ↔ alive = false := by
  cases alive <;> cases airAlive <;> cases tracker <;> decide

theorem windowFlags_aqFault :
    windowFlags alive airAlive tracker &&& sntlFlagAqFault ≠ 0 ↔ airAlive = false := by
  cases alive <;> cases airAlive <;> cases tracker <;> decide

theorem windowFlags_noTracker :
    windowFlags alive airAlive tracker &&& sntlFlagNoTracker ≠ 0 ↔ tracker = false := by
  cases alive <;> cases airAlive <;> cases tracker <;> decide

theorem windowFlags_rtcUnset :
    windowFlags alive airAlive tracker &&& sntlFlagRtcUnset ≠ 0 := by
  cases alive <;> cases airAlive <;> cases tracker <;> decide

/-! ## The radar's fields -/

/-- What the frames since the last take were decided to say. -/
theorem radarPast_decided {past : List SensorEvent} {d : Decided}
    (hd : d ∈ sinceTake (radarPast past)) : ∃ frame, decided frame = some d := by
  induction past with
  | nil => simp [radarPast, sinceTake] at hd
  | cons e past ih =>
    cases e with
    | frame frame now =>
      simp only [radarPast] at hd
      cases hf : decided frame with
      | none =>
        rw [hf] at hd
        exact ih hd
      | some d' =>
        rw [hf] at hd
        simp only [sinceTake, List.mem_cons] at hd
        rcases hd with rfl | hd
        · exact ⟨frame, hf⟩
        · exact ih hd
    | poll t => exact ih hd
    | flush now status => simp [radarPast, sinceTake] at hd

theorem maxN_le {ds : List Decided} {b : ℕ} (h : ∀ d ∈ ds, d.n ≤ b) : maxN ds ≤ b := by
  unfold maxN
  induction ds with
  | nil => exact Nat.zero_le _
  | cons d ds ih =>
    simp only [List.map_cons, List.foldr_cons]
    exact max_le (h d List.mem_cons_self) (ih fun d' hd' => h d' (List.mem_cons_of_mem _ hd'))

theorem le_maxN {ds : List Decided} {d : Decided} (hd : d ∈ ds) : d.n ≤ maxN ds := by
  unfold maxN
  induction ds with
  | nil => simp at hd
  | cons d' ds ih =>
    simp only [List.map_cons, List.foldr_cons]
    rcases List.mem_cons.1 hd with rfl | hd
    · exact le_max_left _ _
    · exact (ih hd).trans (le_max_right _ _)

/-- Someone was seen if any of the frames is occupied. -/
theorem maxN_pos {ds : List Decided} (h : 0 < occupied ds) : 1 ≤ maxN ds := by
  unfold occupied at h
  obtain ⟨d, hd, hn⟩ := List.countP_pos_iff.1 h
  have hle := le_maxN hd
  have hn' : 0 < d.n := by simpa using hn
  omega

/-- While a run lasts, the last frame is occupied. -/
theorem runStart_occupied {past : List RadarEvent} (hrun : runStart past ≠ none)
    (hs : sinceTake past ≠ []) : 0 < occupied (sinceTake past) := by
  cases past with
  | nil => exact absurd rfl hs
  | cons e past =>
    cases e with
    | frame d now =>
      rw [runStart_frame] at hrun
      have hn : d.n ≠ 0 := by
        intro h0
        rw [if_pos h0] at hrun
        exact hrun rfl
      unfold occupied
      simp only [sinceTake]
      rw [List.countP_cons_of_pos (by simpa using Nat.pos_of_ne_zero hn)]
      omega
    | take now => exact absurd rfl hs

/-- **What a window reports**, whatever the uptimes do. -/
structure WindowSound (w : RadarWindow) (past : List RadarEvent) : Prop where
  alive : w.alive = true ↔ sinceTake past ≠ []
  tracker : w.tracker = true ↔ ∃ d ∈ sinceTake past, d.tracker = true
  headcount : w.headcount.toNat = maxN (sinceTake past)
  occS : w.occS.toNat = storePeriodS * occupied (sinceTake past) / (sinceTake past).length
  /-- The dwell clock runs on only while the last frame is occupied. -/
  dwellS : w.dwellS ≠ 0 → 0 < occupied (sinceTake past)

theorem take_sound {past : List RadarEvent} {now : ℤ} (h : Sane past) :
    WindowSound (radarWindowTake (accAfter past) now).1 past := by
  have href := accAfter_refines h
  refine ⟨?_, ?_, href.maxCount, take_occS href now, ?_⟩
  · rw [← frames_pos href]
    exact decide_eq_true_iff
  · show (accAfter past).anyTracker = true ↔ _
    rw [href.anyTracker, List.any_eq_true]
  · intro hdwell
    have hsince := take_occSince href now
    rw [runStart_take] at hsince
    by_cases hs : sinceTake past = []
    · -- a dead window: the clock is stopped before the dwell is taken
      exfalso
      apply hdwell
      rw [if_pos hs] at hsince
      unfold radarWindowTake
      simp only [hsince]
      rfl
    · rw [if_neg hs] at hsince
      apply runStart_occupied _ hs
      intro hrun
      apply hdwell
      rw [hrun] at hsince
      unfold radarWindowTake
      simp only [hsince]
      rfl

/-- **When the SEN5x comes out of a window alive**: it was read, and the status register is
not known to say that it is broken. -/
theorem sen5xWindowTake_alive (s : Sen5x) (t : Transfer) :
    (sen5xWindowTake s t).1.alive = true ↔
      s.acc.alive = true ∧ (t.Good 2 → statusOf t.word &&& statusFatal = 0) := by
  unfold sen5xWindowTake
  cases ha : s.acc.alive with
  | false => simp [ha]
  | true =>
    simp only [if_true, true_and]
    cases hr : readWords t 2 with
    | error e =>
      have hbad : ¬ t.Good 2 := by
        intro hg
        rw [readWords_ok_iff.2 ⟨hg, rfl⟩] at hr
        simp at hr
      simp [ha, hbad]
    | ok w =>
      obtain ⟨hgood, rfl⟩ := readWords_ok_iff.1 hr
      by_cases hs : statusOf t.word &&& statusFatal = 0
      · simp [hs, ha]
      · simp [hs, hgood]

/-! ## The records -/

section Record

variable (w : RadarWindow) (aq : Sen5xWindow)

theorem windowRecord_sensorFault :
    (windowRecord w aq).Has sntlFlagSensorFault ↔ w.alive = false := windowFlags_sensorFault

theorem windowRecord_aqFault :
    (windowRecord w aq).Has sntlFlagAqFault ↔ aq.alive = false := windowFlags_aqFault

theorem windowRecord_noTracker :
    (windowRecord w aq).Has sntlFlagNoTracker ↔ w.tracker = false := windowFlags_noTracker

theorem windowRecord_rtcUnset : (windowRecord w aq).Has sntlFlagRtcUnset := windowFlags_rtcUnset

variable {w} {past : List RadarEvent}

/-- A radar that was not seen reports nothing: every sum over the frames is 0. -/
theorem windowRecord_fault (hw : WindowSound w past)
    (hfault : (windowRecord w aq).Has sntlFlagSensorFault) :
    (windowRecord w aq).headcount = 0 ∧ (windowRecord w aq).occS = 0 ∧
      (windowRecord w aq).dwellS = 0 ∧ (windowRecord w aq).Has sntlFlagNoTracker := by
  rw [windowRecord_sensorFault] at hfault
  have hnone : sinceTake past = [] := by
    by_contra hs
    rw [hw.alive.2 hs] at hfault
    exact Bool.noConfusion hfault
  refine ⟨?_, ?_, ?_, ?_⟩
  · apply UInt8.toNat_inj.1
    show w.headcount.toNat = _
    rw [hw.headcount, hnone]
    rfl
  · apply UInt8.toNat_inj.1
    show w.occS.toNat = _
    rw [hw.occS, hnone]
    rfl
  · by_contra hdwell
    have hpos := hw.dwellS hdwell
    rw [hnone] at hpos
    exact absurd hpos (Nat.lt_irrefl _)
  · rw [windowRecord_noTracker, ← Bool.not_eq_true, hw.tracker, hnone]
    simp

/-- Without a tracked frame the headcount is a floor, if what is not tracked counts as one at
most. -/
theorem windowRecord_floor (hw : WindowSound w past)
    (hfloor : ∀ d ∈ sinceTake past, d.tracker = false → d.n ≤ 1)
    (hno : (windowRecord w aq).Has sntlFlagNoTracker) :
    (windowRecord w aq).headcount.toNat ≤ 1 := by
  rw [windowRecord_noTracker] at hno
  show w.headcount.toNat ≤ 1
  rw [hw.headcount]
  refine maxN_le fun d hd => hfloor d hd ?_
  -- one tracked frame would have set the flag
  by_contra ht
  rw [hw.tracker.2 ⟨d, hd, by simpa using ht⟩] at hno
  exact Bool.noConfusion hno

theorem windowRecord_occupied (hw : WindowSound w past) (hocc : 0 < (windowRecord w aq).occS) :
    1 ≤ (windowRecord w aq).headcount.toNat := by
  show 1 ≤ w.headcount.toNat
  rw [hw.headcount]
  refine maxN_pos (Nat.pos_of_ne_zero fun h0 => ?_)
  have hzero : w.occS.toNat = 0 := by rw [hw.occS, h0, Nat.mul_zero, Nat.zero_div]
  have hlt : (0 : UInt8).toNat < w.occS.toNat := UInt8.lt_iff_toNat_lt.1 hocc
  rw [hzero] at hlt
  exact absurd hlt (Nat.not_lt_zero _)

theorem windowRecord_dwelling (hw : WindowSound w past) (hdwell : 0 < (windowRecord w aq).dwellS) :
    1 ≤ (windowRecord w aq).headcount.toNat ∧
      ¬ (windowRecord w aq).Has sntlFlagSensorFault := by
  have hpos : 0 < occupied (sinceTake past) := hw.dwellS (UInt16.ne_of_lt hdwell).symm
  refine ⟨?_, ?_⟩
  · show 1 ≤ w.headcount.toNat
    rw [hw.headcount]
    exact maxN_pos hpos
  · rw [windowRecord_sensorFault, Bool.not_eq_false, hw.alive]
    intro hs
    rw [hs] at hpos
    exact absurd hpos (Nat.lt_irrefl _)

/-- **A sound window makes a coherent record**, if what is not tracked counts as one at
most. -/
theorem windowRecord_coherent (hw : WindowSound w past)
    (hfloor : ∀ d ∈ sinceTake past, d.tracker = false → d.n ≤ 1) :
    (windowRecord w aq).Coherent where
  occS_le := by
    show w.occS.toNat ≤ _
    rw [hw.occS]
    exact occupied_share _
  headcount_le := by
    show w.headcount.toNat ≤ _
    rw [hw.headcount]
    exact maxN_le fun d _ => d.n_le
  fault := windowRecord_fault aq hw
  floor := windowRecord_floor aq hw hfloor
  occupied := windowRecord_occupied aq hw
  dwelling := windowRecord_dwelling aq hw

end Record

variable {past : List SensorEvent} {now : ℤ} {status : Transfer} {reg : UInt32}

theorem windowFlush_record (s : Sensors) : (windowFlush s now status).1 =
    windowRecord (radarWindowTake s.acc now).1 (sen5xWindowTake s.air status).1 := rfl

theorem sen5xStart_alive (ready : Bool) (cmd : ℤ) :
    (sen5xStart ready cmd).2.acc.alive = false := by
  unfold sen5xStart
  split_ifs <;> rfl

/-- **Every record is coherent**, over every history of frames, polls and flushes, and one
without an air quality fault comes from a window in which the SEN5x was read. -/
theorem record_coherent (ready : Bool) (cmd : ℤ) (h : Sane (.take now :: radarPast past)) :
    (windowFlush (sensorsAfter (sen5xStart ready cmd).2 past) now status).1.Coherent ∧
      (¬ (windowFlush (sensorsAfter (sen5xStart ready cmd).2 past) now status).1.Has
          sntlFlagAqFault → ReadSince (sen5xStart ready cmd).2 past) := by
  refine ⟨?_, ?_⟩
  · have hw : WindowSound (radarWindowTake
        (sensorsAfter (sen5xStart ready cmd).2 past).acc now).1 (radarPast past) := by
      rw [sensorsAfter_acc]
      exact take_sound h.1
    refine windowRecord_coherent _ hw fun d hd ht => ?_
    obtain ⟨frame, hf⟩ := radarPast_decided hd
    exact decided_floor hf ht
  · intro hno
    have halive : (sen5xWindowTake (sensorsAfter (sen5xStart ready cmd).2 past).air
        status).1.alive = true := by
      rw [← Bool.not_eq_false]
      intro hdead
      apply hno
      rw [windowFlush_record, windowRecord_aqFault]
      exact hdead
    have hacc := ((sen5xWindowTake_alive _ _).1 halive).1
    exact (sensorsAfter_alive (sen5xStart_alive ready cmd) past).1 hacc

/-- Someone is seen in the first of two windows, and the second is left dead while the SEN5x
is read. -/
def quietDay : List SensorEvent :=
  [.poll quietAir, .flush 30000 quietAir, .poll quietAir, .frame presenceFrame 12000]

theorem record_coherent_quietDay :
    (windowFlush (sensorsAfter (sen5xStart true 0).2 quietDay) 60000 quietAir).1.Coherent ∧
      (¬ (windowFlush (sensorsAfter (sen5xStart true 0).2 quietDay) 60000 quietAir).1.Has
          sntlFlagAqFault → ReadSince (sen5xStart true 0).2 quietDay) := by
  apply record_coherent
  have hpast : radarPast quietDay = [.take 30000, .frame ⟨1, false, by decide⟩ 12000] := by
    simp [quietDay, radarPast, presenceFrame_decided]
  rw [hpast]
  simp [Sane, RadarEvent.time, sinceTake]

/-- **A fan or laser fault is flagged** if and only if the status transaction succeeds. -/
theorem fault_reported_iff (ready : Bool) (cmd : ℤ)
    (hread : ReadSince (sen5xStart ready cmd).2 past) (hreg : status.Delivers reg)
    (hfatal : reg &&& statusFatal ≠ 0) :
    (windowFlush (sensorsAfter (sen5xStart ready cmd).2 past) now status).1.Has
        sntlFlagAqFault ↔ status.Good 2 := by
  have hacc := (sensorsAfter_alive (sen5xStart_alive ready cmd) past).2 hread
  rw [windowFlush_record, windowRecord_aqFault, ← Bool.not_eq_true, sen5xWindowTake_alive, not_and,
    Classical.not_imp]
  constructor
  · intro h
    exact (h hacc).1
  · intro hgood _
    refine ⟨hgood, ?_⟩
    rw [hreg status.word (readWords_ok_iff.2 ⟨hgood, rfl⟩)]
    exact hfatal

/-- The status transaction that reads FAN. -/
def fanStatus : Transfer where
  cmd := 0
  read := 0
  raw i := [0, 0, 0x81, 0, 0x10, 0xC2].getD i 0

theorem fanStatus_delivers : fanStatus.Delivers 0x10 := by
  intro w hw
  obtain ⟨-, rfl⟩ := readWords_ok_iff.1 hw
  decide

theorem fault_reported_fan :
    (windowFlush (sensorsAfter (sen5xStart true 0).2 [.poll quietAir]) 30000 fanStatus).1.Has
      sntlFlagAqFault ↔ fanStatus.Good 2 :=
  fault_reported_iff true 0 ⟨rfl, quietAir, List.mem_cons_self, quietAir_good⟩ fanStatus_delivers
    (by decide)

/-- **The silent fault**: the fan has stopped, the values are read, and the status command
is not answered. -/
theorem fault_silent : ¬ ∀ (past : List SensorEvent) (now : ℤ) (status : Transfer) (reg : UInt32),
    ReadSince (sen5xStart true 0).2 past → status.Delivers reg → reg &&& statusFatal ≠ 0 →
      (windowFlush (sensorsAfter (sen5xStart true 0).2 past) now status).1.Has
        sntlFlagAqFault := by
  intro h
  have hmute : (⟨-eio, 0, fanStatus.raw⟩ : Transfer).Delivers 0x10 := by
    intro w hw
    exact absurd (readWords_ok_iff.1 hw).1.1 (by decide)
  have hflag := h [.poll quietAir] 30000 ⟨-eio, 0, fanStatus.raw⟩ 0x10
    ⟨rfl, quietAir, List.mem_cons_self, quietAir_good⟩ hmute (by decide)
  revert hflag
  decide +kernel

end PresenceNode
