import PresenceNode.Proof.StoreOps
import PresenceNode.Spec.Halves

/-!
# Neither sensor touches the other's numbers

* `storeInit_shows`, `storeAppend_shows`: the store does not look at what a view hides.
* `step_shows`: neither does its life, and what can be read is seen through the view.
* `sensors_independent`: without the SEN5x, or without the radar, a node makes the same records with
  that half missing, and no more and no fewer of them.
-/

namespace PresenceNode

variable {ρ : Type} {L : Layout ρ} (V : View L)

namespace View

/-! ## Entries -/

theorem entry_image (r : ρ) : V.entry (L.image r) = L.image (V.of r) := by
  rw [entry, if_pos (L.image_length r), L.ofImage_image]

theorem entry_length (bs : List UInt8) : (V.entry bs).length = bs.length := by
  unfold entry
  split_ifs with h
  · rw [L.image_length, h]
  · rfl

theorem flash_other (fl : Flash) {id : ℕ} (h : id < nvsIdRec0) : V.flash fl id = fl id := if_pos h

theorem flash_update (fl : Flash) {id : ℕ} (h : id < nvsIdRec0) (bs : List UInt8) :
    Function.update (V.flash fl) id (some bs) = V.flash (Function.update fl id (some bs)) := by
  funext k
  unfold flash
  by_cases hk : k = id
  · subst hk
    rw [Function.update_self, if_pos h, Function.update_self]
  · rw [Function.update_of_ne hk, Function.update_of_ne hk]

theorem flash_putRec (fl : Flash) (r : ρ) : putRec L (V.flash fl) (V.of r) = V.flash (putRec L fl r) := by
  have hid : ¬ recId (L.seq r) < nvsIdRec0 := by
    rw [recId_eq]
    exact Nat.not_lt.2 (Nat.le_add_right _ _)
  funext k
  unfold putRec flash
  rw [V.seq_of]
  by_cases hk : k = recId (L.seq r)
  · subst hk
    rw [Function.update_self, if_neg hid, Function.update_self, Option.map_some, entry_image]
  · rw [Function.update_of_ne hk, Function.update_of_ne hk]

theorem flash_none : V.flash (fun _ => none) = fun _ => none := by
  funext k
  simp [flash]

/-- A slot seen through the view. -/
theorem recAt_flash (fl : Flash) (s : UInt32) : recAt L (V.flash fl) s = (recAt L fl s).map V.of := by
  have hid : ¬ recId s < nvsIdRec0 := by
    rw [recId_eq]
    exact Nat.not_lt.2 (Nat.le_add_right _ _)
  unfold recAt flash
  rw [if_neg hid]
  cases fl (recId s) with
  | none => rfl
  | some bs =>
    simp only [Option.map_some, entry_length]
    by_cases h : bs.length = L.size
    · rw [if_pos h, if_pos h, entry, if_pos h, L.ofImage_image]
      rfl
    · rw [if_neg h, if_neg h]
      rfl

/-- **What can be read** is seen through the view, and no more and no less can. -/
theorem storeGet_flash (ram : Ram) (fl : Flash) (seq : UInt32) :
    storeGet L ram (V.flash fl) seq = (storeGet L ram fl seq).map V.of := by
  cases hget : storeGet L ram fl seq with
  | ok r =>
    obtain ⟨hlt, hold, hm, hheld, hseq⟩ := storeGet_ok_iff.1 hget
    refine storeGet_ok_iff.2 ⟨hlt, hold, hm, ?_, (V.seq_of r).trans hseq⟩
    rw [V.recAt_flash, hheld]
    rfl
  | error e =>
    cases hget' : storeGet L ram (V.flash fl) seq with
    | error e' =>
      rw [storeGet_error hget, storeGet_error hget']
      rfl
    | ok r' =>
      -- the slot holds a record with that seq, and so it does without the view
      obtain ⟨hlt, hold, hm, hheld, hseq⟩ := storeGet_ok_iff.1 hget'
      rw [V.recAt_flash, Option.map_eq_some_iff] at hheld
      obtain ⟨r, hr, rfl⟩ := hheld
      rw [V.seq_of] at hseq
      have hok := storeGet_ok_iff.2 ⟨hlt, hold, hm, hr, hseq⟩
      rw [hget] at hok
      simp at hok

/-! ## Programs -/

theorem nvsWrite_shows (m : Bool) {slot : ℕ} (hslot : slot < nvsIdRec0) (bs : List UInt8) :
    Durable.Shows V.flash id (nvsWrite m slot bs) (nvsWrite m slot bs) := by
  unfold nvsWrite
  exact Durable.shows_ite (Durable.shows_op fun fl => V.flash_update fl hslot bs)
    (Durable.shows_pure _)

theorem nvsClear_shows : Durable.Shows V.flash id nvsClear nvsClear :=
  Durable.shows_op fun _ => V.flash_none.symm

theorem nvsTouch_shows : Durable.Shows V.flash id nvsTouch nvsTouch := Durable.shows_op fun _ => rfl

theorem storeMigrate_shows (ram : Ram) :
    Durable.Shows V.flash id (storeMigrate L ram) (storeMigrate L ram) := by
  unfold storeMigrate
  refine Durable.shows_bind V.nvsClear_shows fun err => ?_
  refine Durable.shows_ite (Durable.shows_pure _) ?_
  refine Durable.shows_bind V.nvsTouch_shows fun err => ?_
  refine Durable.shows_ite (Durable.shows_pure _) ?_
  refine Durable.shows_bind (V.nvsWrite_shows _ (by decide) _) fun err => ?_
  refine Durable.shows_ite (Durable.shows_pure _) ?_
  refine Durable.shows_bind (V.nvsWrite_shows _ (by decide) _) fun err => ?_
  refine Durable.shows_ite (Durable.shows_pure _) ?_
  refine Durable.shows_bind (V.nvsWrite_shows _ (by decide) _) fun err => ?_
  exact Durable.shows_ite (Durable.shows_pure _) (Durable.shows_pure _)

/-- **A boot** reads no record. -/
theorem storeInit_shows : Durable.Shows V.flash id (storeInit L) (storeInit L) := by
  unfold storeInit
  refine Durable.shows_bind V.nvsTouch_shows fun ready => ?_
  refine Durable.shows_ite (Durable.shows_pure _) ?_
  refine Durable.shows_bind V.nvsTouch_shows fun err => ?_
  refine Durable.shows_ite (Durable.shows_pure _) ?_
  refine Durable.shows_bind V.nvsTouch_shows fun err => ?_
  refine Durable.shows_ite (Durable.shows_pure _) ?_
  refine Durable.shows_get fun fl => ?_
  have hmeta : metaOf (V.flash fl) = metaOf fl := metaOf_congr (V.flash_other fl (by decide))
  have hformat : formatOf (V.flash fl) = formatOf fl := formatOf_congr (V.flash_other fl (by decide))
  have hfloor : floorOf (V.flash fl) = floorOf fl := floorOf_congr (V.flash_other fl (by decide))
  rw [hmeta, hformat, hfloor]
  exact Durable.shows_ite (V.storeMigrate_shows _) (Durable.shows_pure _)

/-- **An append** stores what it is given, whatever that is. -/
theorem storeAppend_shows (ram : Ram) (rec : ρ) (up : ℕ) :
    Durable.Shows V.flash (fun p => (p.1, p.2.1, V.of p.2.2)) (storeAppend L ram rec up)
      (storeAppend L ram (V.of rec) up) := by
  unfold storeAppend
  rw [V.stamp_of]
  refine Durable.shows_bind (k := id) ?_ fun err => ?_
  · unfold nvsWrite
    refine Durable.shows_ite (Durable.shows_op fun fl => ?_) (Durable.shows_pure _)
    exact V.flash_putRec fl _
  · refine Durable.shows_ite (Durable.shows_pure _) ?_
    have hts : L.ts (V.of (L.stamp ram.counters.nextSeq (storeNow ram up) rec)) =
        L.ts (L.stamp ram.counters.nextSeq (storeNow ram up) rec) := by
      rw [← V.stamp_of, L.ts_stamp, L.ts_stamp]
    rw [hts]
    refine Durable.shows_bind (V.nvsWrite_shows _ (by decide) _) fun err => ?_
    exact Durable.shows_pure _

/-! ## Lives -/

theorem answer_shows (l : Life ρ) (ram : Ram) (seq : UInt32) :
    (V.life l).answer L ram seq = V.life (l.answer L ram seq) := by
  have hget : storeGet L ram (V.life l).flash seq = (storeGet L ram l.flash seq).map V.of :=
    V.storeGet_flash ram l.flash seq
  unfold Life.answer
  split_ifs
  all_goals
    simp only [hget]
    cases storeGet L ram l.flash seq with
    | ok r => rfl
    | error e => rfl

/-- **The life of a store** does not look at what a view hides. -/
theorem step_shows (l : Life ρ) (e : Event ρ) :
    (V.life l).step L (V.event e) = V.life (l.step L e) := by
  cases e with
  | boot fates =>
    have hrun := V.storeInit_shows l.flash fates
    have hflash : (V.life l).flash = V.flash l.flash := rfl
    simp only [event, Life.step, hflash, hrun]
    cases (storeInit L).run l.flash fates with
    | ret a fl fs => rfl
    | cut fl => rfl
  | append rec up fates =>
    have hram : (V.life l).ram = l.ram := rfl
    simp only [event, Life.step, hram]
    cases l.ram with
    | none => rfl
    | some ram =>
      have hrun := V.storeAppend_shows ram rec up l.flash fates
      have hflash : (V.life l).flash = V.flash l.flash := rfl
      simp only [hflash, hrun]
      cases (storeAppend L ram rec up).run l.flash fates with
      | ret a fl fs => rfl
      | cut fl => rfl
  | get seq =>
    have hram : (V.life l).ram = l.ram := rfl
    simp only [event, Life.step, hram]
    cases l.ram with
    | none => rfl
    | some ram => exact V.answer_shows l ram seq
  | off => rfl

end View

/-! ## The recorder -/

/-- A window of a silent radar. -/
theorem silent_take (now : ℤ) : radarWindowTake .zero now = (⟨0, 0, 0, false, false⟩, .zero) := rfl

/-- A window of a SEN5x that was never started. -/
theorem stopped_take (t : Transfer) :
    sen5xWindowTake ⟨false, .unknown⟩ t = (.unknown, ⟨false, .unknown⟩) := rfl

/-- **Without the SEN5x** a flush makes the radar's half of the record. -/
theorem flush_radarHalf (s : Sensors) (now : ℤ) (status t : Transfer) :
    windowFlush ⟨s.acc, ⟨false, .unknown⟩⟩ now t =
      (radarHalf.of (windowFlush s now status).1,
        ⟨(windowFlush s now status).2.acc, ⟨false, .unknown⟩⟩) := by
  unfold windowFlush
  simp only [stopped_take]
  -- the flag is the only field that both sensors have a part in
  have hflags : ∀ alive air tracker : Bool, windowFlags alive false tracker =
      windowFlags alive air tracker ||| sntlFlagAqFault := by decide
  unfold radarHalf windowRecord
  simp only [Sen5xWindow.unknown, hflags _ (sen5xWindowTake s.air status).1.alive]

/-- **Without the radar** it makes the SEN5x's half. -/
theorem flush_airHalf (s : Sensors) (now : ℤ) (status : Transfer) :
    windowFlush ⟨.zero, s.air⟩ now status =
      (airHalf.of (windowFlush s now status).1, ⟨.zero, (windowFlush s now status).2.air⟩) := by
  unfold windowFlush
  simp only [silent_take]
  have hflags : ∀ alive air tracker : Bool, windowFlags false air false =
      windowFlags alive air tracker ||| sntlFlagSensorFault ||| sntlFlagNoTracker := by decide
  unfold airHalf windowRecord
  simp only [hflags (radarWindowTake s.acc now).1.alive _ (radarWindowTake s.acc now).1.tracker]

/-- **The same node without the SEN5x.** -/
structure WithoutAir (r r' : Recorder) : Prop where
  life : r'.life = radarHalf.life r.life
  sensors : r'.sensors = ⟨r.sensors.acc, ⟨false, .unknown⟩⟩
  sec : r'.sec = r.sec
  due : r'.due = r.due

/-- **The same node without the radar.** -/
structure WithoutRadar (r r' : Recorder) : Prop where
  life : r'.life = airHalf.life r.life
  sensors : r'.sensors = ⟨.zero, r.sensors.air⟩
  sec : r'.sec = r.sec
  due : r'.due = r.due

theorem WithoutAir.count {r r' : Recorder} (h : WithoutAir r r') : WithoutAir r.count r'.count := by
  unfold Recorder.count
  simp only [h.sec]
  split_ifs
  · exact ⟨h.life, h.sensors, rfl, rfl⟩
  · exact ⟨h.life, h.sensors, rfl, h.due⟩

theorem WithoutRadar.count {r r' : Recorder} (h : WithoutRadar r r') :
    WithoutRadar r.count r'.count := by
  unfold Recorder.count
  simp only [h.sec]
  split_ifs
  · exact ⟨h.life, h.sensors, rfl, rfl⟩
  · exact ⟨h.life, h.sensors, rfl, h.due⟩

theorem step_withoutAir {r r' : Recorder} (h : WithoutAir r r') (e : RecorderEvent) :
    WithoutAir (r.step e) (r'.step e.withoutAir) := by
  have hram : r'.life.ram = r.life.ram := by rw [h.life]; rfl
  cases e with
  | boot fates ready cmd =>
    refine ⟨?_, rfl, rfl, rfl⟩
    show r'.life.step sntlLayout (.boot fates) = _
    rw [h.life]
    exact radarHalf.step_shows r.life (.boot fates)
  | frame bytes now =>
    simp only [RecorderEvent.withoutAir, Recorder.step, hram]
    split_ifs
    · refine ⟨h.life, ?_, h.sec, h.due⟩
      simp only [Recorder.sense, h.sensors, Sensors.step]
      cases decided bytes with
      | none => rfl
      | some d => rfl
    · exact h
  | poll t =>
    simp only [RecorderEvent.withoutAir, Recorder.step, hram, h.due]
    split_ifs
    · refine WithoutAir.count ⟨h.life, ?_, h.sec, h.due⟩
      simp only [Recorder.sense, h.sensors]
      rfl
    · exact h
  | flush now status up fates =>
    simp only [RecorderEvent.withoutAir, Recorder.step, hram, h.due]
    split_ifs
    · rw [h.sensors, flush_radarHalf r.sensors now status, h.life]
      exact ⟨radarHalf.step_shows r.life (.append _ up fates), rfl, h.sec, rfl⟩
    · exact h
  | off =>
    refine ⟨?_, h.sensors, h.sec, h.due⟩
    show r'.life.step sntlLayout .off = _
    rw [h.life]
    exact radarHalf.step_shows r.life .off

theorem step_withoutRadar {r r' : Recorder} (h : WithoutRadar r r') {e e' : RecorderEvent}
    (he : e.withoutRadar = some e') : WithoutRadar (r.step e) (r'.step e') := by
  have hram : r'.life.ram = r.life.ram := by rw [h.life]; rfl
  cases e with
  | frame bytes now => simp [RecorderEvent.withoutRadar] at he
  | boot fates ready cmd =>
    obtain rfl := Option.some.inj he
    refine ⟨?_, rfl, rfl, rfl⟩
    show r'.life.step sntlLayout (.boot fates) = _
    rw [h.life]
    exact airHalf.step_shows r.life (.boot fates)
  | poll t =>
    obtain rfl := Option.some.inj he
    simp only [Recorder.step, hram, h.due]
    split_ifs
    · refine WithoutRadar.count ⟨h.life, ?_, h.sec, h.due⟩
      simp only [Recorder.sense, h.sensors]
      rfl
    · exact h
  | flush now status up fates =>
    obtain rfl := Option.some.inj he
    simp only [Recorder.step, hram, h.due]
    split_ifs
    · rw [h.sensors, flush_airHalf r.sensors now status, h.life]
      exact ⟨airHalf.step_shows r.life (.append _ up fates), rfl, h.sec, rfl⟩
    · exact h
  | off =>
    obtain rfl := Option.some.inj he
    refine ⟨?_, h.sensors, h.sec, h.due⟩
    show r'.life.step sntlLayout .off = _
    rw [h.life]
    exact airHalf.step_shows r.life .off

/-- Without the radar, a frame is nothing. -/
theorem skip_withoutRadar {r r' : Recorder} (h : WithoutRadar r r') {e : RecorderEvent}
    (he : e.withoutRadar = none) : WithoutRadar (r.step e) r' := by
  cases e with
  | frame bytes now =>
    simp only [Recorder.step]
    split_ifs
    · refine ⟨h.life, ?_, h.sec, h.due⟩
      simp only [Recorder.sense, h.sensors, Sensors.step]
      cases decided bytes with
      | none => rfl
      | some d => rfl
    · exact h
  | boot fates ready cmd => simp [RecorderEvent.withoutRadar] at he
  | poll t => simp [RecorderEvent.withoutRadar] at he
  | flush now status up fates => simp [RecorderEvent.withoutRadar] at he
  | off => simp [RecorderEvent.withoutRadar] at he

/-- **The sensors are independent.** Take any run of a node, with any prior flash. The same node
without a SEN5x, from that flash with the radar's half of the records in it, ends with the same
counters, and with the radar's half of every record; the same node without radar frames, from the
SEN5x's half, ends with the same counters, and with the SEN5x's half of every record. So neither
sensor's failure costs a record, or a number of the other. -/
theorem sensors_independent (fl : Flash) (evs : List RecorderEvent) (ram : Ram) (seq : UInt32) :
    (recorderMachine.run (.start (radarHalf.flash fl)) (evs.map RecorderEvent.withoutAir)).life.ram =
        (recorderMachine.run (.start fl) evs).life.ram ∧
      storeGet sntlLayout ram (recorderMachine.run (.start (radarHalf.flash fl))
          (evs.map RecorderEvent.withoutAir)).life.flash seq =
        (storeGet sntlLayout ram (recorderMachine.run (.start fl) evs).life.flash seq).map
          radarHalf.of ∧
      (recorderMachine.run (.start (airHalf.flash fl)) (evs.filterMap RecorderEvent.withoutRadar)).life.ram =
        (recorderMachine.run (.start fl) evs).life.ram ∧
      storeGet sntlLayout ram (recorderMachine.run (.start (airHalf.flash fl))
          (evs.filterMap RecorderEvent.withoutRadar)).life.flash seq =
        (storeGet sntlLayout ram (recorderMachine.run (.start fl) evs).life.flash seq).map
          airHalf.of := by
  have hair : WithoutAir (recorderMachine.run (.start fl) evs)
      (recorderMachine.run (.start (radarHalf.flash fl)) (evs.map RecorderEvent.withoutAir)) := by
    rw [← List.filterMap_eq_map]
    refine Machine.run_shows ?_ ?_ ⟨rfl, rfl, rfl, rfl⟩ evs
    · intro r r' e e' h he
      obtain rfl := Option.some.inj he
      exact step_withoutAir h e
    · intro r r' e h he
      simp at he
  have hradar : WithoutRadar (recorderMachine.run (.start fl) evs)
      (recorderMachine.run (.start (airHalf.flash fl)) (evs.filterMap RecorderEvent.withoutRadar)) := by
    refine Machine.run_shows ?_ ?_ ⟨rfl, rfl, rfl, rfl⟩ evs
    · intro r r' e e' h he
      exact step_withoutRadar h he
    · intro r r' e h he
      exact skip_withoutRadar h he
  rw [hair.life, hradar.life]
  exact ⟨rfl, radarHalf.storeGet_flash ram _ seq, rfl, airHalf.storeGet_flash ram _ seq⟩

end PresenceNode
