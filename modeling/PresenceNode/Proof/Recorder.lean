import PresenceNode.Proof.Air
import PresenceNode.Proof.Log
import PresenceNode.Spec.Recorder

/-!
# What a record tells, from the sensors to the flash

* `Tells`: a record says what the sensors did in one window.
* `flush_tells`: so does what `window_flush` makes, whatever seq and ts the store gives it.
* `count_sec`, `poll_sound`: a flush is due after 30 polls.
* `step_sound`: the record of every flush tells of it.
* `step_held`: every record in flash tells of a flush.
* `recorder_tells`: so does every record that can be read, in any run.
* `recorder_ordered`: two of them tell of two flushes, in the order of their seqs.
-/

namespace PresenceNode

/-! ## One record -/

/-- **A record tells of a flush**: it is the one made there, but for seq and ts; its fields are the
windows of the two sensors; and the record period had 30 polls. -/
structure Tells (f : Flush) (rec : SntlRecord) : Prop where
  made : ∃ seq ts, rec = sntlLayout.stamp seq ts f.record
  radar : Reports rec.radarWindow (radarPast f.past) f.now
  air : AirReport (readings f.air f.past) rec.airWindow
  /-- The flag is clear exactly if the SEN5x was read, and is not known to be broken. -/
  aqFault : ¬ rec.Has sntlFlagAqFault ↔
    ReadSince f.air f.past ∧ (f.status.Good 2 → statusOf f.status.word &&& statusFatal = 0)
  rtcUnset : rec.Has sntlFlagRtcUnset
  polls : (pollsSince f.past).length = storePeriodS

theorem windowRecord_radarWindow (w : RadarWindow) (aq : Sen5xWindow) :
    (windowRecord w aq).radarWindow = w := by
  have halive := windowRecord_sensorFault w aq
  have htracker := windowRecord_noTracker w aq
  obtain ⟨headcount, occS, dwellS, alive, tracker⟩ := w
  unfold SntlRecord.radarWindow
  cases alive <;> cases tracker <;> simp_all [windowRecord]

theorem windowRecord_airWindow (w : RadarWindow) (aq : Sen5xWindow) :
    (windowRecord w aq).airWindow = aq := by
  have halive := windowRecord_aqFault w aq
  obtain ⟨pm25, pm10, temp, rh, voc, alive⟩ := aq
  unfold SntlRecord.airWindow
  cases alive <;> simp_all [windowRecord]

/-- **What `window_flush` makes tells of it**, whatever the store fills in. -/
theorem flush_tells {f : Flush} (hair : f.air.acc = .unknown)
    (ht : Timely (.take f.now :: radarPast f.past))
    (hpolls : (pollsSince f.past).length = storePeriodS) (seq ts : UInt32) :
    Tells f (sntlLayout.stamp seq ts f.record) := by
  set w := (radarWindowTake (sensorsAfter f.air f.past).acc f.now).1 with hw
  set aq := (sen5xWindowTake (sensorsAfter f.air f.past).air f.status).1 with haq
  have hradar : (sntlLayout.stamp seq ts f.record).radarWindow = w := windowRecord_radarWindow w aq
  have hair' : (sntlLayout.stamp seq ts f.record).airWindow = aq := windowRecord_airWindow w aq
  refine ⟨⟨seq, ts, rfl⟩, ?_, ?_, ?_, windowRecord_rtcUnset w aq, hpolls⟩
  · rw [hradar, hw, sensorsAfter_acc]
    exact take_reports (accAfter_refines (timely_sane ht.1)) ht
  · rw [hair']
    exact window_take_report f.status (sensorsAfter_report hair f.past)
  · have hdead : f.air.acc.alive = false := by rw [hair]; rfl
    show ¬ (windowRecord w aq).Has sntlFlagAqFault ↔ _
    rw [windowRecord_aqFault, Bool.not_eq_false, haq, sen5xWindowTake_alive,
      sensorsAfter_alive hdead]

/-! ## The flash -/

/-- **An event** of the store keeps what every record in flash has, and what a record appended has
under any seq and ts. -/
theorem step_holds {q : SntlRecord → Prop} {l : Life SntlRecord} (h : Holds sntlLayout q l.flash)
    (e : Event SntlRecord)
    (he : ∀ rec up fates, e = .append rec up fates → ∀ s t, q (sntlLayout.stamp s t rec)) :
    Holds sntlLayout q (l.step sntlLayout e).flash := by
  cases e with
  | boot fates =>
    have hkeep := storeInit_keeps l.flash fates h
    simp only [Life.step]
    cases hrun : (storeInit sntlLayout).run l.flash fates with
    | ret a fl fs =>
      rw [hrun] at hkeep
      exact hkeep
    | cut fl =>
      rw [hrun] at hkeep
      exact hkeep
  | append rec up fates =>
    simp only [Life.step]
    cases hram : l.ram with
    | none => exact h
    | some ram =>
      have hstamped : q (stamped sntlLayout ram up rec) := he rec up fates rfl _ _
      have hkeep := storeAppend_keeps hstamped l.flash fates h
      simp only
      cases hrun : (storeAppend sntlLayout ram rec up).run l.flash fates with
      | ret a fl fs =>
        rw [hrun] at hkeep
        exact hkeep
      | cut fl =>
        rw [hrun] at hkeep
        exact hkeep
  | get seq =>
    simp only [Life.step]
    cases l.ram with
    | none => exact h
    | some ram =>
      rw [(answer_state l ram seq).1]
      exact h
  | off => exact h

namespace Recorder

/-- **The recorder is what its history says**, and the record of each flush tells of it. -/
structure Sound (r : Recorder) : Prop where
  sensors : r.sensors = sensorsAfter r.air r.past
  air : r.air.acc = .unknown
  polls : r.due = false → (pollsSince r.past).length = r.sec.toNat
  full : r.due = true → (pollsSince r.past).length = storePeriodS ∧ r.sec = 0
  sec : r.sec.toNat < storePeriodS
  flushes : ∀ f ∈ r.flushes, ∀ seq ts, Tells f (sntlLayout.stamp seq ts f.record)

/-- **Each record in flash tells of a flush.** -/
def Held (r : Recorder) : Prop :=
  Holds sntlLayout (fun rec => ∃ f ∈ r.flushes, Tells f rec) r.life.flash

theorem storePeriodS_pos : (0 : UInt32).toNat < storePeriodS := by decide

theorem start_sound (fl : Flash) : (start fl).Sound where
  sensors := rfl
  air := rfl
  polls _ := rfl
  full h := Bool.noConfusion h
  sec := storePeriodS_pos
  flushes _ hf := absurd hf List.not_mem_nil

theorem start_held {fl : Flash} (hb : Blank sntlLayout fl) : (start fl).Held := by
  intro s rec hs
  have hnone : recAt sntlLayout (start fl).life.flash s = none := hb s
  rw [hnone] at hs
  simp at hs

/-- `sec` goes up to `STORE_PERIOD_S`, and then a flush is due. -/
theorem count_sec (r : Recorder) (hsec : r.sec.toNat < storePeriodS) :
    r.count = (if r.sec.toNat + 1 = storePeriodS then { r with sec := 0, due := true }
      else { r with sec := r.sec + 1 }) ∧ (r.sec + 1).toNat = r.sec.toNat + 1 := by
  have hnext : (r.sec + 1).toNat = r.sec.toNat + 1 := by
    rw [UInt32.toNat_add, UInt32.toNat_one]
    simp only [storePeriodS] at hsec
    omega
  refine ⟨?_, hnext⟩
  unfold count
  simp only
  have hge : r.sec + 1 ≥ .ofNat storePeriodS ↔ r.sec.toNat + 1 = storePeriodS := by
    rw [ge_iff_le, UInt32.le_iff_toNat_le, hnext]
    show storePeriodS ≤ _ ↔ _
    omega
  by_cases h : r.sec.toNat + 1 = storePeriodS
  · rw [if_pos (hge.2 h), if_pos h]
  · rw [if_neg fun hc => h (hge.1 hc), if_neg h]

theorem frame_sound {r : Recorder} (h : r.Sound) (frame : List UInt8) (now : ℤ) :
    (r.sense (.frame frame now)).Sound := by
  refine ⟨?_, h.air, h.polls, h.full, h.sec, h.flushes⟩
  unfold sense
  simp only
  rw [h.sensors]
  rfl

/-- **An iteration** adds a poll to the window, and the flush is due with the last of them. -/
theorem poll_sound {r : Recorder} (h : r.Sound) (hdue : r.due = false) (t : Transfer) :
    (r.sense (.poll t)).count.Sound := by
  have hpolls := h.polls hdue
  have hlen : (pollsSince (.poll t :: r.past)).length = r.sec.toNat + 1 := by
    show (t :: pollsSince r.past).length = _
    rw [List.length_cons, hpolls]
  have hsensors : r.sensors.step (.poll t) = sensorsAfter r.air (.poll t :: r.past) := by
    rw [h.sensors]
    rfl
  obtain ⟨hcount, hnext⟩ := count_sec (r.sense (.poll t)) h.sec
  rw [hcount]
  by_cases hfull : (r.sense (.poll t)).sec.toNat + 1 = storePeriodS
  · rw [if_pos hfull]
    exact ⟨hsensors, h.air, Bool.noConfusion, fun _ => ⟨hlen.trans hfull, rfl⟩, storePeriodS_pos,
      h.flushes⟩
  · rw [if_neg hfull]
    have hsec := h.sec
    refine ⟨hsensors, h.air, fun _ => hlen.trans hnext.symm, ?_, ?_, h.flushes⟩
    · intro hc
      rw [show r.due = true from hc] at hdue
      exact Bool.noConfusion hdue
    · show (r.sec + 1).toNat < storePeriodS
      have hne : r.sec.toNat + 1 ≠ storePeriodS := hfull
      have hnext' : (r.sec + 1).toNat = r.sec.toNat + 1 := hnext
      omega

/-- A flush that is due. -/
theorem step_flush {r : Recorder} (hrun : r.life.ram.isSome ∧ r.due = true) (now : ℤ)
    (status : Transfer) (up : ℕ) (fates : List Fate) :
    r.step (.flush now status up fates) =
      { r with
        life := r.life.step sntlLayout (.append (windowFlush r.sensors now status).1 up fates)
        sensors := (windowFlush r.sensors now status).2
        due := false
        past := .flush now status :: r.past
        flushes := ⟨r.air, r.past, now, status⟩ :: r.flushes } := by
  simp only [step, if_pos hrun]

/-- **What a flush that is due makes** tells of it. -/
theorem due_tells {r : Recorder} (h : r.Sound) (hdue : r.due = true) {now : ℤ} (status : Transfer)
    (ht : Timely (.take now :: radarPast r.past)) (seq ts : UInt32) :
    Tells ⟨r.air, r.past, now, status⟩
      (sntlLayout.stamp seq ts (windowFlush r.sensors now status).1) := by
  rw [h.sensors]
  exact flush_tells (f := ⟨r.air, r.past, now, status⟩) h.air ht (h.full hdue).1 seq ts

/-- **A flush** makes one record, and it tells of the flush. -/
theorem flush_sound {r : Recorder} (h : r.Sound) (hdue : r.due = true) (now : ℤ)
    (status : Transfer) (life : Life SntlRecord) (ht : Timely (.take now :: radarPast r.past)) :
    Sound
      { r with
        life := life
        sensors := (windowFlush r.sensors now status).2
        due := false
        past := .flush now status :: r.past
        flushes := ⟨r.air, r.past, now, status⟩ :: r.flushes } := by
  have hsec := (h.full hdue).2
  have htells := due_tells h hdue status ht
  rw [h.sensors] at htells
  refine ⟨?_, h.air, ?_, Bool.noConfusion, h.sec, ?_⟩
  · show (windowFlush r.sensors now status).2 = _
    rw [h.sensors]
    rfl
  · intro _
    show (pollsSince (.flush now status :: r.past)).length = r.sec.toNat
    rw [hsec]
    rfl
  · intro f hf
    rcases List.mem_cons.1 hf with rfl | hf
    · exact htells
    · exact h.flushes f hf

theorem step_sound (r : Recorder) (e : RecorderEvent) (h : r.Sound) (hg : r.InOrder e) :
    (r.step e).Sound := by
  cases e with
  | boot fates ready cmd =>
    exact ⟨rfl, sen5xStart_unknown ready cmd, fun _ => rfl, Bool.noConfusion, storePeriodS_pos,
      h.flushes⟩
  | frame frame now =>
    simp only [step]
    split_ifs
    · exact frame_sound h frame now
    · exact h
  | poll t =>
    simp only [step]
    split_ifs with hrun
    · exact poll_sound h hrun.2 t
    · exact h
  | flush now status up fates =>
    simp only [step]
    split_ifs with hrun
    · exact flush_sound h hrun.2 now status _ hg
    · exact h
  | off => exact ⟨h.sensors, h.air, h.polls, h.full, h.sec, h.flushes⟩

/-- **An event** writes no record that does not tell of a flush. -/
theorem step_held (r : Recorder) (e : RecorderEvent) (h : r.Sound) (hh : r.Held)
    (hg : r.InOrder e) : (r.step e).Held := by
  cases e with
  | boot fates ready cmd => exact step_holds hh _ fun rec up fates' he => by simp at he
  | frame frame now =>
    simp only [step]
    split_ifs
    · exact hh
    · exact hh
  | poll t =>
    simp only [step]
    split_ifs
    · unfold count
      simp only
      split_ifs
      · exact hh
      · exact hh
    · exact hh
  | flush now status up fates =>
    simp only [step]
    split_ifs with hrun
    · apply step_holds
      · intro s rec hs
        obtain ⟨f, hf, htells⟩ := hh s rec hs
        exact ⟨f, List.mem_cons_of_mem _ hf, htells⟩
      · intro rec up' fates' he s t
        obtain ⟨rfl, -, -⟩ :
            (windowFlush r.sensors now status).1 = rec ∧ up = up' ∧ fates = fates' := by
          simpa using he
        exact ⟨_, List.mem_cons_self, due_tells h hrun.2 status hg s t⟩
    · exact hh
  | off => exact step_holds hh _ fun rec up fates' he => by simp at he

theorem run_sound {r : Recorder} (h : r.Sound) {evs : List RecorderEvent}
    (hg : recorderMachine.Guarded InOrder r evs) : (recorderMachine.run r evs).Sound :=
  Machine.run_invariant step_sound h hg

theorem run_held {r : Recorder} (h : r.Sound) (hh : r.Held) {evs : List RecorderEvent}
    (hg : recorderMachine.Guarded InOrder r evs) : (recorderMachine.run r evs).Held := by
  have hstep : ∀ r e, Sound r ∧ Held r → r.InOrder e → Sound (r.step e) ∧ Held (r.step e) :=
    fun r e h hg => ⟨step_sound r e h.1 hg, step_held r e h.1 h.2 hg⟩
  exact (Machine.run_invariant (M := recorderMachine) hstep ⟨h, hh⟩ hg).2

/-- Flushes stay in the log. -/
theorem step_flushes (r : Recorder) (e : RecorderEvent) : r.flushes <:+ (r.step e).flushes := by
  cases e with
  | boot fates ready cmd => exact List.suffix_rfl
  | frame frame now =>
    simp only [step]
    split_ifs
    · exact List.suffix_rfl
    · exact List.suffix_rfl
  | poll t =>
    simp only [step]
    split_ifs
    · unfold count
      simp only
      split_ifs
      · exact List.suffix_rfl
      · exact List.suffix_rfl
    · exact List.suffix_rfl
  | flush now status up fates =>
    simp only [step]
    split_ifs
    · exact List.suffix_cons _ _
    · exact List.suffix_rfl
  | off => exact List.suffix_rfl

theorem run_flushes (r : Recorder) (evs : List RecorderEvent) :
    r.flushes <:+ (recorderMachine.run r evs).flushes := by
  induction evs generalizing r with
  | nil => exact List.suffix_rfl
  | cons e evs ih => exact (step_flushes r e).trans (ih (r.step e))

/-- **Every record tells the truth.** Over every run of boots, losses of power, radar frames and
iterations of the main loop, whatever the sensors and the flash do: a record that can be read says
of one call of `window_flush`, in this boot or an earlier one, what the radar and the SEN5x had done
in its window, and that window had 30 polls. -/
theorem recorder_tells {fl : Flash} (hb : Blank sntlLayout fl) {evs : List RecorderEvent}
    (hg : recorderMachine.Guarded InOrder (start fl) evs) {ram : Ram} {seq : UInt32}
    {rec : SntlRecord}
    (hget : storeGet sntlLayout ram (recorderMachine.run (start fl) evs).life.flash seq = .ok rec) :
    ∃ f ∈ (recorderMachine.run (start fl) evs).flushes, Tells f rec := by
  have hh := run_held (start_sound fl) (start_held hb) hg
  obtain ⟨-, -, -, hheld, -⟩ := storeGet_ok_iff.1 hget
  exact hh seq rec hheld

/-- A record period in which the SEN5x reads zeros, and its flush at `now` seconds. -/
def window (now : ℕ) : List RecorderEvent :=
  List.replicate 30 (.poll quietAir) ++ [.flush (1000 * now) quietAir (1000 * now) []]

/-- A boot and one window, in which someone is seen from 2 s on. -/
def oneWindow : List RecorderEvent := .boot [] true 0 :: .frame presenceFrame 2000 :: window 30

/-- Its record. -/
def oneRecord : SntlRecord :=
  { record₀ with ts := 30, headcount := 1, occS := 30, dwellS := 28, batt := 100, flags := 0x24 }

set_option maxRecDepth 10000 in
theorem recorder_tells_oneWindow :
    ∃ f ∈ (recorderMachine.run (start flash₀) oneWindow).flushes, Tells f oneRecord := by
  have hg : recorderMachine.Guarded InOrder (start flash₀) oneWindow := by decide +kernel
  have hget : storeGet sntlLayout ⟨true, ⟨1, 30⟩, 0, 0⟩
      (recorderMachine.run (start flash₀) oneWindow).life.flash 0 = .ok oneRecord := by
    decide +kernel
  exact recorder_tells (recAt_migrated _) hg hget

/-- **An event** logs the flush it makes. -/
theorem step_ordered (r : Recorder) (e : RecorderEvent)
    (h : r.Sound ∧ Logged sntlLayout Tells r.life r.flushes)
    (hg : r.InOrder e ∧ r.Unlapped e) :
    (r.step e).Sound ∧ Logged sntlLayout Tells (r.step e).life (r.step e).flushes := by
  obtain ⟨hs, hl⟩ := h
  refine ⟨step_sound r e hs hg.1, ?_⟩
  cases e with
  | boot fates ready cmd => exact boot_logged hl fates
  | frame frame now =>
    simp only [step]
    split_ifs
    · exact hl
    · exact hl
  | poll t =>
    simp only [step]
    split_ifs
    · unfold count
      simp only
      split_ifs
      · exact hl
      · exact hl
    · exact hl
  | flush now status up fates =>
    simp only [step]
    split_ifs with hrun
    · show Logged sntlLayout Tells (r.life.step sntlLayout
        (.append (windowFlush r.sensors now status).1 up fates)) (⟨r.air, r.past, now, status⟩ :: _)
      refine step_logged hl _ (List.sublist_cons_self _ _) ?_
      intro rec up' fates' he ram hram hm _
      obtain ⟨rfl, rfl, -⟩ :
          (windowFlush r.sensors now status).1 = rec ∧ up = up' ∧ fates = fates' := by
        simpa using he
      refine ⟨hg.2 ram hram hm, ⟨r.air, r.past, now, status⟩, rfl, ?_⟩
      exact due_tells hs hrun.2 status hg.1 _ _
    · exact hl
  | off =>
    have hno : ∀ (rec : SntlRecord) up fates, Event.off ≠ .append rec up fates := by simp
    exact step_logged hl .off (List.Sublist.refl _) fun rec up fates he => absurd he (hno _ _ _)

/-- **The records are the windows, in order.** As long as no append laps the saved counters, two
records that can be read tell of two flushes, in the order of their seqs. -/
theorem recorder_ordered {fl : Flash} (hf : formatOf fl = sntlLayout.format)
    (hb : Blank sntlLayout fl) {evs : List RecorderEvent}
    (hg : recorderMachine.Guarded (fun r e => r.InOrder e ∧ r.Unlapped e) (start fl) evs)
    {ram : Ram} (hram : (recorderMachine.run (start fl) evs).life.ram = some ram) {a b : UInt32}
    {ra rb : SntlRecord}
    (ha : storeGet sntlLayout ram (recorderMachine.run (start fl) evs).life.flash a = .ok ra)
    (hb' : storeGet sntlLayout ram (recorderMachine.run (start fl) evs).life.flash b = .ok rb)
    (hab : a < b) :
    ∃ fa fb, Tells fa ra ∧ Tells fb rb ∧
      [fb, fa].Sublist (recorderMachine.run (start fl) evs).flushes := by
  have h := Machine.run_invariant step_ordered ⟨start_sound fl, start_logged hf hb []⟩ hg
  exact logged_pair h.2 hram ha hb' hab

/-- A second window, in which the radar is silent. -/
def twoWindows : List RecorderEvent := oneWindow ++ window 60

/-- The record of the second window. -/
def silentRecord : SntlRecord := { record₀ with seq := 1, ts := 60, batt := 100, flags := 0x25 }

set_option maxRecDepth 10000 in
theorem recorder_ordered_twoWindows :
    ∃ fa fb, Tells fa oneRecord ∧ Tells fb silentRecord ∧
      [fb, fa].Sublist (recorderMachine.run (start flash₀) twoWindows).flushes := by
  have hg : recorderMachine.Guarded (fun r e => r.InOrder e ∧ r.Unlapped e) (start flash₀)
      twoWindows := by decide +kernel
  have hram : (recorderMachine.run (start flash₀) twoWindows).life.ram =
      some ⟨true, ⟨2, 60⟩, 0, 0⟩ := by decide +kernel
  have ha : storeGet sntlLayout ⟨true, ⟨2, 60⟩, 0, 0⟩
      (recorderMachine.run (start flash₀) twoWindows).life.flash 0 = .ok oneRecord := by
    decide +kernel
  have hb : storeGet sntlLayout ⟨true, ⟨2, 60⟩, 0, 0⟩
      (recorderMachine.run (start flash₀) twoWindows).life.flash 1 = .ok silentRecord := by
    decide +kernel
  exact recorder_ordered (formatOf_migrated _) (recAt_migrated _) hg hram ha hb (by decide)

end Recorder

end PresenceNode
