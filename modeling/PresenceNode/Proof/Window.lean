import PresenceNode.Spec.Radar

/-!
# A window is what the frames since the last take say

* `runStart_frame`, `runStart_take`: how a call moves the start of the current run.
* `Refines`: what the accumulators hold after a history.
* `onFrame_refines`, `take_refines`, `accAfter_refines`: every sane history keeps to it.
* `window_take`: what each take reports.
-/

namespace PresenceNode

/-! ## The start of the run -/

theorem runStart_break {past : List RadarEvent} {e : RadarEvent} (h : Breaks past e) :
    runStart (e :: past) = none := by
  unfold runStart sinceBreak
  rw [if_pos h]
  rfl

theorem sinceBreak_go {past : List RadarEvent} {e : RadarEvent} (h : ¬ Breaks past e) :
    sinceBreak (e :: past) = e :: sinceBreak past := by
  rw [sinceBreak, if_neg h]

theorem runStart_frame (d : Decided) (now : ℤ) (past : List RadarEvent) :
    runStart (.frame d now :: past) = if d.n = 0 then none else some ((runStart past).getD now) := by
  by_cases h : d.n = 0
  · rw [if_pos h]
    exact runStart_break h
  · have hb : ¬ Breaks past (.frame d now) := h
    rw [if_neg h]
    unfold runStart
    rw [sinceBreak_go hb]
    simp only [List.filterMap_cons, RadarEvent.frameTime]
    rw [List.getLast?_cons]

theorem runStart_take (now : ℤ) (past : List RadarEvent) :
    runStart (.take now :: past) = if sinceTake past = [] then none else runStart past := by
  by_cases h : sinceTake past = []
  · rw [if_pos h]
    exact runStart_break h
  · have hb : ¬ Breaks past (.take now) := h
    rw [if_neg h]
    unfold runStart
    rw [sinceBreak_go hb]
    simp only [List.filterMap_cons, RadarEvent.frameTime]

/-- A run starts at the uptime of one of its events. -/
theorem runStart_mem {past : List RadarEvent} {t : ℤ} (h : runStart past = some t) :
    ∃ e ∈ past, e.time = t := by
  induction past with
  | nil => simp [runStart, sinceBreak] at h
  | cons e past ih =>
    cases e with
    | frame d now =>
      rw [runStart_frame] at h
      split_ifs at h
      simp only [Option.some.injEq] at h
      cases hp : runStart past with
      | none =>
        rw [hp] at h
        exact ⟨_, List.mem_cons_self, h⟩
      | some t' =>
        rw [hp] at h
        obtain ⟨e, he, ht⟩ := ih (hp.trans (congrArg some h))
        exact ⟨e, List.mem_cons_of_mem _ he, ht⟩
    | take now =>
      rw [runStart_take] at h
      split_ifs at h
      obtain ⟨e, he, ht⟩ := ih h
      exact ⟨e, List.mem_cons_of_mem _ he, ht⟩

theorem timely_sane {past : List RadarEvent} (h : Timely past) : Sane past := by
  induction past with
  | nil => trivial
  | cons e past ih => exact ⟨ih h.1, h.2.1, h.2.2.2⟩

theorem sane_pos {past : List RadarEvent} (h : Sane past) : ∀ e ∈ past, 0 < e.time := by
  induction past with
  | nil => intro e he; simp at he
  | cons e past ih =>
    obtain ⟨hp, hpos, -⟩ := h
    intro e' he
    rcases List.mem_cons.1 he with rfl | he
    · exact hpos
    · exact ih hp e' he

theorem runStart_pos {past : List RadarEvent} (h : Sane past) {t : ℤ}
    (ht : runStart past = some t) : 0 < t := by
  obtain ⟨e, he, rfl⟩ := runStart_mem ht
  exact sane_pos h e he

/-! ## The accumulators -/

/-- The largest count of some frames. -/
def maxN (ds : List Decided) : ℕ := (ds.map Decided.n).foldr max 0

/-- How many of some frames are occupied. -/
def occupied (ds : List Decided) : ℕ := ds.countP fun d => 0 < d.n

/-- **What the accumulators hold** after a history. -/
structure Refines (acc : Acc) (past : List RadarEvent) : Prop where
  maxCount : acc.maxCount.toNat = maxN (sinceTake past)
  frames : acc.frames.toNat = (sinceTake past).length
  occFrames : acc.occFrames.toNat = occupied (sinceTake past)
  anyTracker : acc.anyTracker = (sinceTake past).any Decided.tracker
  occSince : acc.occSince = (runStart past).getD 0

/-! ## The calls -/

variable (acc : Acc) (d : Decided) (now : ℤ)

theorem onFrame_maxCount : (onFrame acc d now).maxCount =
    if d.n > acc.maxCount.toNat then .ofNat d.n else acc.maxCount := by
  unfold onFrame
  by_cases hn : d.n > 0
  · simp only [if_pos hn]
    split_ifs <;> rfl
  · have hm : ¬ d.n > acc.maxCount.toNat := by omega
    simp only [if_neg hn, if_neg hm]
    split_ifs <;> rfl

theorem onFrame_maxN :
    (onFrame acc d now).maxCount.toNat = max d.n acc.maxCount.toNat := by
  have hle := d.n_le
  have hbig : (UInt8.ofNat d.n).toNat = d.n :=
    UInt8.toNat_ofNat_of_lt' (lt_of_le_of_lt hle (by decide))
  rw [onFrame_maxCount]
  split_ifs with hgt
  · rw [hbig]
    omega
  · omega

theorem onFrame_frames : (onFrame acc d now).frames = acc.frames + 1 := by
  unfold onFrame
  simp only
  split_ifs <;> rfl

theorem onFrame_occFrames : (onFrame acc d now).occFrames =
    if d.n > 0 then acc.occFrames + 1 else acc.occFrames := by
  unfold onFrame
  simp only
  split_ifs <;> rfl

theorem onFrame_anyTracker : (onFrame acc d now).anyTracker = (d.tracker || acc.anyTracker) := by
  unfold onFrame
  cases d.tracker with
  | false =>
    simp only [Bool.false_eq_true, if_false, Bool.false_or]
    split_ifs <;> rfl
  | true =>
    simp only [if_true, Bool.true_or]
    split_ifs <;> rfl

theorem onFrame_occSince : (onFrame acc d now).occSince =
    if d.n > 0 then (if acc.occSince = 0 then now else acc.occSince) else 0 := by
  unfold onFrame
  by_cases hn : d.n > 0
  · simp only [if_pos hn]
    by_cases hs : acc.occSince = 0
    · rw [if_pos (by split_ifs <;> exact hs), if_pos hs]
    · rw [if_neg (by split_ifs <;> exact hs), if_neg hs]
      split_ifs <;> rfl
  · simp only [if_neg hn]

variable {acc d now}

/-- **A frame** moves the accumulators as it moves the history. -/
theorem onFrame_refines {past : List RadarEvent} (h : Refines acc past)
    (ht : Sane (.frame d now :: past)) :
    Refines (onFrame acc d now) (.frame d now :: past) := by
  obtain ⟨hpast, -, hlen⟩ := ht
  simp only [sinceTake, List.length_cons] at hlen
  refine ⟨?_, ?_, ?_, ?_, ?_⟩
  · rw [onFrame_maxN, h.maxCount]
    rfl
  · rw [onFrame_frames, UInt16.toNat_add, UInt16.toNat_one, h.frames]
    simp only [sinceTake, List.length_cons]
    omega
  · have hle : occupied (sinceTake past) ≤ (sinceTake past).length := List.countP_le_length
    have hocc := h.occFrames
    rw [onFrame_occFrames]
    simp only [sinceTake]
    unfold occupied at hocc hle ⊢
    by_cases hn : d.n > 0
    · rw [if_pos hn, List.countP_cons_of_pos (by simpa using hn), UInt16.toNat_add,
        UInt16.toNat_one, hocc]
      omega
    · rw [if_neg hn, List.countP_cons_of_neg (by simpa using hn), hocc]
  · rw [onFrame_anyTracker, h.anyTracker]
    rfl
  · rw [onFrame_occSince, runStart_frame, h.occSince]
    by_cases hn : d.n > 0
    · rw [if_pos hn, if_neg (show ¬ d.n = 0 by omega)]
      cases hr : runStart past with
      | none => simp
      | some t =>
        -- the run goes on: uptimes are positive, so the clock is not 0
        have htpos := runStart_pos hpast hr
        simp only [Option.getD_some]
        rw [if_neg (by omega)]
    · rw [if_neg hn, if_pos (show d.n = 0 by omega)]
      rfl

theorem frames_pos {past : List RadarEvent} (h : Refines acc past) :
    acc.frames > 0 ↔ sinceTake past ≠ [] := by
  rw [gt_iff_lt, UInt16.lt_iff_toNat_lt, h.frames, UInt16.toNat_zero, List.length_pos_iff]

/-- **The dwell clock at a take**: it survives unless the window was dead. -/
theorem take_occSince {past : List RadarEvent} (h : Refines acc past) (now : ℤ) :
    (if decide (acc.frames > 0) then acc.occSince else 0) =
      (runStart (.take now :: past)).getD 0 := by
  rw [runStart_take]
  by_cases hs : sinceTake past = []
  · rw [if_pos hs, if_neg (by simp [frames_pos h, hs])]
    rfl
  · rw [if_neg hs, if_pos (by simp [frames_pos h, hs])]
    exact h.occSince

/-- **A take** clears what belongs to the window. -/
theorem take_refines {past : List RadarEvent} (h : Refines acc past) (now : ℤ) :
    Refines (radarWindowTake acc now).2 (.take now :: past) :=
  ⟨rfl, rfl, rfl, rfl, take_occSince h now⟩

/-- **The accumulators refine the history.** -/
theorem accAfter_refines {past : List RadarEvent} (h : Sane past) :
    Refines (accAfter past) past := by
  induction past with
  | nil => exact ⟨rfl, rfl, rfl, rfl, rfl⟩
  | cons e past ih =>
    cases e with
    | frame d now => exact onFrame_refines (ih h.1) h
    | take now => exact take_refines (ih h.1) now

/-- What does not depend on the counters and the clock holds after any history. -/
theorem accAfter_maxCount (past : List RadarEvent) :
    (accAfter past).maxCount.toNat = maxN (sinceTake past) := by
  induction past with
  | nil => rfl
  | cons e past ih =>
    cases e with
    | frame d now =>
      show (onFrame (accAfter past) d now).maxCount.toNat = _
      rw [onFrame_maxN, ih]
      rfl
    | take now => rfl

theorem accAfter_anyTracker (past : List RadarEvent) :
    (accAfter past).anyTracker = (sinceTake past).any Decided.tracker := by
  induction past with
  | nil => rfl
  | cons e past ih =>
    cases e with
    | frame d now =>
      show (onFrame (accAfter past) d now).anyTracker = _
      rw [onFrame_anyTracker, ih]
      rfl
    | take now => rfl

/-! ## The report -/

/-- **What a take must report** of a history. -/
structure Reports (w : RadarWindow) (past : List RadarEvent) (now : ℤ) : Prop where
  alive : w.alive = true ↔ sinceTake past ≠ []
  tracker : w.tracker = true ↔ ∃ d ∈ sinceTake past, d.tracker = true
  headcount : w.headcount.toNat = maxN (sinceTake past)
  occS : w.occS.toNat = storePeriodS * occupied (sinceTake past) / (sinceTake past).length
  occS_le : w.occS.toNat ≤ storePeriodS
  /-- The run is the one after this take, which breaks it if its window was dead. -/
  dwellS : (w.dwellS.toNat : ℤ) = match runStart (.take now :: past) with
    | none => 0
    | some t₀ => min 65535 ((now - t₀) / 1000)

/-- The occupied share of a window is at most the window. -/
theorem occupied_share (ds : List Decided) :
    storePeriodS * occupied ds / ds.length ≤ storePeriodS :=
  Nat.div_le_of_le_mul (by
    rw [Nat.mul_comm]
    exact Nat.mul_le_mul_right _ List.countP_le_length)

theorem take_occS {past : List RadarEvent} (h : Refines acc past) (now : ℤ) :
    (radarWindowTake acc now).1.occS.toNat =
      storePeriodS * occupied (sinceTake past) / (sinceTake past).length := by
  have hshare := occupied_share (sinceTake past)
  have hocc := acc.occFrames.toNat_lt
  unfold radarWindowTake
  simp only
  by_cases h0 : acc.frames = 0
  · -- no frame: both sides are 0
    have hlen := h.frames
    rw [h0, UInt16.toNat_zero] at hlen
    rw [if_neg (not_not.2 h0), ← hlen, Nat.div_zero]
    rfl
  · rw [if_pos h0, UInt32.toNat_toUInt8, UInt32.toNat_div, UInt32.toNat_mul,
      UInt16.toNat_toUInt32, UInt16.toNat_toUInt32, h.occFrames, h.frames]
    rw [h.occFrames] at hocc
    have hperiod : (UInt32.ofNat storePeriodS).toNat = storePeriodS := rfl
    have hbound : storePeriodS * occupied (sinceTake past) < 2 ^ 32 := by
      simp only [storePeriodS]
      omega
    rw [hperiod, Nat.mul_comm, Nat.mod_eq_of_lt hbound]
    exact Nat.mod_eq_of_lt (lt_of_le_of_lt hshare (show storePeriodS < 2 ^ 8 by decide))

/-- **The dwell of a take** is the age of the clock that the take leaves. -/
theorem take_dwell (acc : Acc) {now : ℤ} (hle : (radarWindowTake acc now).2.occSince ≠ 0 →
    (radarWindowTake acc now).2.occSince ≤ now) :
    ((radarWindowTake acc now).1.dwellS.toNat : ℤ) =
      if (radarWindowTake acc now).2.occSince = 0 then 0
      else min 65535 ((now - (radarWindowTake acc now).2.occSince) / 1000) := by
  unfold radarWindowTake at hle ⊢
  simp only at hle ⊢
  generalize (if decide (acc.frames > 0) = true then acc.occSince else 0) = clock at hle ⊢
  by_cases h0 : clock = 0
  · rw [if_neg (not_not.2 h0), if_pos h0]
    rfl
  · -- a clock starts in the past, so the division truncates and floors alike
    have hle := hle h0
    rw [if_pos h0, if_neg h0, Int.tdiv_eq_ediv_of_nonneg (by omega)]
    split_ifs with hbig
    · rw [min_eq_left (by omega)]
      rfl
    · rw [min_eq_right (by omega)]
      unfold UInt16.ofInt
      rw [UInt16.toNat_ofNat_of_lt' (by show _ < 2 ^ 16; omega)]
      omega

theorem take_dwellS {past : List RadarEvent} (h : Refines acc past) (ht : Timely (.take now :: past)) :
    ((radarWindowTake acc now).1.dwellS.toNat : ℤ) = match runStart (.take now :: past) with
      | none => 0
      | some t₀ => min 65535 ((now - t₀) / 1000) := by
  have hclock : (radarWindowTake acc now).2.occSince = (runStart (.take now :: past)).getD 0 :=
    take_occSince h now
  cases hr : runStart (.take now :: past) with
  | none =>
    rw [hr] at hclock
    simp only [Option.getD_none] at hclock
    rw [take_dwell acc (fun h0 => absurd hclock h0), if_pos hclock]
  | some t₀ =>
    rw [hr] at hclock
    simp only [Option.getD_some] at hclock
    have hpos := runStart_pos (timely_sane ht) hr
    have hle : t₀ ≤ now := by
      obtain ⟨e, he, rfl⟩ := runStart_mem hr
      rcases List.mem_cons.1 he with rfl | he
      · exact le_rfl
      · exact ht.2.2.1 e he
    rw [take_dwell acc (by omega), if_neg (by omega), hclock]

/-- What a take of the accumulators reports. -/
theorem take_reports {past : List RadarEvent} {now : ℤ} (h : Refines acc past)
    (ht : Timely (.take now :: past)) : Reports (radarWindowTake acc now).1 past now := by
  refine ⟨?_, ?_, h.maxCount, take_occS h now, ?_, take_dwellS h ht⟩
  · rw [← frames_pos h]
    exact decide_eq_true_iff
  · show acc.anyTracker = true ↔ _
    rw [h.anyTracker, List.any_eq_true]
  · rw [take_occS h now]
    exact occupied_share _

/-- **Every take reports the window**, over every timely history. -/
theorem window_take {past : List RadarEvent} {now : ℤ} (ht : Timely (.take now :: past)) :
    Reports (radarWindowTake (accAfter past) now).1 past now := by
  have h : Refines (accAfter past) past := accAfter_refines (timely_sane ht.1)
  exact take_reports h ht

/-- Someone comes in at 10 s, is seen across a take at 30 s, and again before a take at
60 s: 50 s of dwell. -/
def visit : List RadarEvent :=
  [.frame ⟨1, true, by decide⟩ 59000, .take 30000, .frame ⟨2, true, by decide⟩ 29000,
    .frame ⟨1, true, by decide⟩ 10000, .frame ⟨0, false, by decide⟩ 9000]

theorem window_take_visit : Reports ⟨1, 30, 50, true, true⟩ visit 60000 := by
  have ht : Timely (.take 60000 :: visit) := by simp [Timely, visit, RadarEvent.time, sinceTake]
  have hw : (radarWindowTake (accAfter visit) 60000).1 = ⟨1, 30, 50, true, true⟩ := by decide
  rw [← hw]
  exact window_take ht

end PresenceNode
