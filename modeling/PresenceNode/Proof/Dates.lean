import PresenceNode.Proof.Log

/-!
# What a receiver can tell from the timestamps

* `take_sound`, `step_sound`: each record that is written is a reading of the clock.
* `ts_tracks`: a timestamp is the time the node was on and knew of, short of it by at most a second
  for each boot.
* `dates_recovered`: the receiver's date of a record is late by the age of the newest record and by
  the time missed between the two, up to a second, and one more for each boot between them.
-/

namespace PresenceNode

namespace Dated

variable {ρ : Type} {L : Layout ρ}

/-- **A store whose timestamps are readings of its clock.** -/
structure Sound (L : Layout ρ) (d : Dated ρ) : Prop where
  logged : Logged L (fun p r => p.2 = r) d.life d.clock.taken
  saved : (metaOf d.life.flash).baseSec.toNat = d.clock.saved.value
  base : ∀ ram ∈ d.life.ram, ram.mounted = true → ram.bootOffset.toNat = d.clock.base
  ts : ∀ p ∈ d.clock.taken, (L.ts p.2).toNat = p.1.value

theorem start_sound {fl : Flash} (hf : formatOf fl = L.format) (hb : Blank L fl) (now : ℕ) :
    (start fl now : Dated ρ).Sound L where
  logged := start_logged hf hb _
  saved := rfl
  base ram hram := by simp [start, Life.start] at hram
  ts p hp := by simp [start, Resumed.fresh] at hp

theorem boot_sound {d : Dated ρ} (h : d.Sound L) (now : ℕ) (fates : List Fate) :
    (d.step L (now, .boot fates)).Sound L := by
  obtain ⟨hflash, hram⟩ := boot_booted h.logged.format fates
  refine ⟨boot_logged h.logged fates, ?_, ?_, h.ts⟩
  · show (metaOf (d.life.step L (.boot fates)).flash).baseSec.toNat = _
    rw [hflash]
    exact h.saved
  · intro ram hmem hm
    rw [hram ram hmem hm]
    exact h.saved

/-- **An append that stores its record** reads the clock. -/
theorem take_sound {d : Dated ρ} (h : d.Sound L) {ram : Ram} (hram : d.life.ram = some ram)
    (hm : ram.mounted = true) {now up : ℕ} (rec : ρ) {fates : List Fate}
    (htake : takesEffect fates = true) (hup : up = now - d.clock.started)
    (hsec : ram.bootOffset.toNat + up / secondMs < 2 ^ 32)
    (hlap : ¬ (metaOf d.life.flash).InRing ram.counters.nextSeq) :
    (⟨d.life.step L (.append rec up fates), d.clock.step secondMs
      (.take now (stamped L ram up rec) (bothTakeEffect fates))⟩ : Dated ρ).Sound L := by
  obtain ⟨hflash, hram'⟩ := append_written (L := L) hram hm rec up fates
  have hts : (L.ts (stamped L ram up rec)).toNat = (d.clock.reading secondMs now).value := by
    rw [ts_stamped hsec, h.base ram hram hm, hup]
    rfl
  have hbase : (ram.bump up).counters.baseSec.toNat = (d.clock.reading secondMs now).value := by
    rw [← hts]
    unfold stamped
    rw [L.ts_stamp]
    rfl
  refine ⟨stored_logged h.logged hram hm rec up htake rfl hlap, ?_, ?_, ?_⟩
  · unfold writtenFlash at hflash
    rw [if_pos htake] at hflash
    show (metaOf (d.life.step L (.append rec up fates)).flash).baseSec.toNat = _
    rw [hflash]
    cases bothTakeEffect fates with
    | true =>
      rw [if_pos rfl, metaOf_putMeta]
      exact hbase
    | false =>
      rw [if_neg Bool.false_ne_true, metaOf_putRec]
      exact h.saved
  · intro ram' hmem _
    rw [hram' ram' hmem, if_pos htake]
    exact h.base ram hram hm
  · intro p hp
    rcases List.mem_cons.1 hp with rfl | hp
    · exact hts
    · exact h.ts p hp

/-- What changes neither the saved counters nor the clock. -/
theorem pass_sound {d : Dated ρ} (h : d.Sound L) (now : ℕ) {l : Life ρ}
    (hl : Logged L (fun p r => p.2 = r) l d.clock.taken) (hflash : l.flash = d.life.flash)
    (hram : ∀ ram ∈ l.ram, ram ∈ d.life.ram) :
    (⟨l, d.clock.step secondMs (.pass now)⟩ : Dated ρ).Sound L := by
  refine ⟨hl, ?_, fun ram hmem => h.base ram (hram ram hmem), h.ts⟩
  show (metaOf l.flash).baseSec.toNat = _
  rw [hflash]
  exact h.saved

/-- **An append** reads the clock, or stores nothing. -/
theorem append_sound {d : Dated ρ} (h : d.Sound L) (now : ℕ) (rec : ρ) (up : ℕ)
    (fates : List Fate) (hg : d.Timely (now, .append rec up fates)) :
    (d.step L (now, .append rec up fates)).Sound L := by
  obtain ⟨-, hup, hall⟩ := hg
  by_cases hstore : ∃ ram ∈ d.life.ram, ram.mounted = true ∧ takesEffect fates = true
  · obtain ⟨ram, hram, hm, htake⟩ := hstore
    obtain ⟨hsec, hlap⟩ := hall ram hram
    unfold step tick
    rw [show d.life.ram = some ram from hram]
    simp only
    rw [if_pos ⟨hm, htake⟩]
    exact take_sound h hram hm rec htake hup hsec (hlap hm)
  · have hno : ∀ ram ∈ d.life.ram, ram.mounted = true → takesEffect fates = false := by
      intro ram hram hm
      rw [← Bool.not_eq_true]
      exact fun htake => hstore ⟨ram, hram, hm, htake⟩
    have htick : d.tick L now (.append rec up fates) = .pass now := by
      unfold tick
      cases hram : d.life.ram with
      | none => rfl
      | some ram =>
        simp only
        exact if_neg fun hc => hstore ⟨ram, hram, hc⟩
    obtain ⟨hflash, hram⟩ := append_refused (L := L) rec up hno
    unfold step
    rw [htick]
    refine pass_sound h now (step_logged h.logged _ (List.Sublist.refl _) ?_) hflash hram
    rintro rec' up' fates' he ram hmem hm htake
    obtain ⟨-, -, rfl⟩ : rec = rec' ∧ up = up' ∧ fates = fates' := by simpa using he
    rw [hno ram hmem hm] at htake
    exact Bool.noConfusion htake

/-- **An event** keeps the timestamps readings of the clock. -/
theorem step_sound {d : Dated ρ} (h : d.Sound L) (e : ℕ × Event ρ) (hg : d.Timely e) :
    (d.step L e).Sound L := by
  obtain ⟨now, e⟩ := e
  have hsame : (∀ rec up fates, e ≠ .append rec up fates) →
      Logged L (fun p r => p.2 = r) (d.life.step L e) d.clock.taken := by
    intro hne
    exact step_logged h.logged e (List.Sublist.refl _) fun rec up fates he => absurd he (hne _ _ _)
  cases e with
  | boot fates => exact boot_sound h now fates
  | append rec up fates => exact append_sound h now rec up fates hg
  | get seq =>
    have hl := hsame fun rec up fates he => by simp at he
    refine pass_sound h now hl ?_ ?_
    · unfold Life.step
      cases d.life.ram with
      | none => rfl
      | some ram => exact (answer_state d.life ram seq).1
    · unfold Life.step
      cases hram : d.life.ram with
      | none =>
        intro ram hmem
        simp only [hram] at hmem
        exact hmem
      | some ram =>
        intro ram' hmem
        simp only [(answer_state d.life ram seq).2, hram] at hmem
        exact hmem
  | off =>
    have hl := hsame fun rec up fates he => by simp at he
    exact pass_sound h now hl rfl fun ram hram => by simp [Life.step] at hram

theorem tick_forward {d : Dated ρ} {e : ℕ × Event ρ} (hg : d.Timely e) :
    d.clock.Forward (d.tick L e.1 e.2) := by
  obtain ⟨now, e⟩ := e
  unfold tick
  cases e with
  | boot fates => exact hg.1
  | append rec up fates =>
    cases d.life.ram with
    | none => exact hg.1
    | some ram =>
      simp only
      split_ifs
      · exact hg.1
      · exact hg.1
  | get seq => exact hg.1
  | off => exact hg.1

theorem run_sound {d : Dated ρ} {origin : Resumed.Reading} (h : d.Sound L)
    (hc : d.clock.Running secondMs origin) {evs : List (ℕ × Event ρ)}
    (hg : (datedMachine L).Guarded Timely d evs) :
    ((datedMachine L).run d evs).Sound L ∧
      ((datedMachine L).run d evs).clock.Running secondMs origin := by
  have hstep : ∀ (d : Dated ρ) e, d.Sound L ∧ d.clock.Running secondMs origin → d.Timely e →
      (d.step L e).Sound L ∧ (d.step L e).clock.Running secondMs origin :=
    fun d e h hge => ⟨step_sound h.1 e hge,
      Resumed.step_running (by decide) h.2 (tick_forward hge)⟩
  exact Machine.run_invariant hstep ⟨h, hc⟩ hg

/-! ## What the timestamps say -/

variable {fl : Flash} {now : ℕ} {evs : List (ℕ × Event ρ)}

/-- **`ts` is the device's seconds.** Of every record that was ever written, in any run: its `ts` is
the time since the beginning that the node had not missed, in whole seconds; it is never ahead, and
behind by less than a second for each boot and one more. -/
theorem ts_tracks (hf : formatOf fl = L.format) (hb : Blank L fl)
    (hg : (datedMachine L).Guarded Timely (.start fl now) evs) :
    ∀ p ∈ ((datedMachine L).run (.start fl now) evs).clock.taken,
      1000 * ((L.ts p.2).toNat - (metaOf fl).baseSec.toNat : ℤ) ≤ p.1.time - now - p.1.lost ∧
      (p.1.time - now - p.1.lost : ℤ) ≤
        1000 * ((L.ts p.2).toNat - (metaOf fl).baseSec.toNat : ℤ) + 999 * (1 + p.1.starts) := by
  intro p hp
  obtain ⟨hs, hr⟩ := run_sound (start_sound hf hb now) (Resumed.fresh_running (by decide) _ now) hg
  obtain ⟨hle, hge⟩ := hr.behind p hp
  have hts := hs.ts p hp
  unfold Resumed.Reading.phase at hle hge
  simp only [secondMs] at hle hge
  push_cast at hle hge
  zify at hts
  rw [hts]
  constructor
  · linarith
  · linarith

/-- Two boots with a record each; between them the node is off for most of a minute. -/
def offBetween : List (ℕ × Event SntlRecord) :=
  [(0, .boot []), (30500, .append record₀ 30500 []), (90000, .boot []),
    (120000, .append record₀ 30000 [])]

theorem flash₀_blank : Blank sntlLayout flash₀ := recAt_migrated _

/-- The second record: a minute that counted, of two. -/
theorem ts_tracks_offBetween :
    1000 * (((60 : UInt32).toNat : ℤ) - (metaOf flash₀).baseSec.toNat) ≤
        (120000 : ℕ) - (0 : ℕ) - (59500 : ℕ) ∧
      ((120000 : ℕ) - (0 : ℕ) - (59500 : ℕ) : ℤ) ≤
        1000 * (((60 : UInt32).toNat : ℤ) - (metaOf flash₀).baseSec.toNat) +
          999 * (1 + (2 : ℕ)) := by
  have hmem : (⟨60, 120000, 2, 59500⟩, { record₀ with seq := 1, ts := 60 }) ∈
      ((datedMachine sntlLayout).run (.start flash₀ 0) offBetween).clock.taken := by decide
  exact ts_tracks (formatOf_migrated _) flash₀_blank (by decide) _ hmem

/-- **The receiver's dates.** Two records that can be read were written in the order of their seqs;
and if the newer one is dated by the time of the download, the older one is dated late by the age of
the newer one and by the time the node missed between the two, up to a second, and up to one more
for each boot between them. Without a boot between them nothing was missed. -/
theorem dates_recovered (hf : formatOf fl = L.format) (hb : Blank L fl)
    (hg : (datedMachine L).Guarded Timely (.start fl now) evs) {ram : Ram} {a b : UInt32} {ra rb : ρ}
    (hram : ((datedMachine L).run (.start fl now) evs).life.ram = some ram)
    (ha : storeGet L ram ((datedMachine L).run (.start fl now) evs).life.flash a = .ok ra)
    (hb' : storeGet L ram ((datedMachine L).run (.start fl now) evs).life.flash b = .ok rb)
    (hab : a < b) (download : ℕ) :
    ∃ pa ∈ ((datedMachine L).run (.start fl now) evs).clock.taken,
      ∃ pb ∈ ((datedMachine L).run (.start fl now) evs).clock.taken,
        pa.2 = ra ∧ pb.2 = rb ∧ pa.1.time ≤ pb.1.time ∧ pa.1.starts ≤ pb.1.starts ∧
        (pb.1.starts = pa.1.starts → pb.1.lost = pa.1.lost) ∧
        -999 ≤ backdate download (L.ts rb) (L.ts ra) - pa.1.time -
          ((download - pb.1.time) + (pb.1.lost - pa.1.lost)) ∧
        backdate download (L.ts rb) (L.ts ra) - pa.1.time -
          ((download - pb.1.time) + (pb.1.lost - pa.1.lost)) ≤
            999 * (1 + (pb.1.starts - pa.1.starts : ℤ)) := by
  obtain ⟨hs, hr⟩ := run_sound (start_sound hf hb now) (Resumed.fresh_running (by decide) _ now) hg
  set d := (datedMachine L).run (.start fl now) evs with hd
  obtain ⟨pa, pb, rfl, rfl, hlog⟩ := logged_pair hs.logged hram ha hb' hab
  have hpa : pa ∈ d.clock.taken := hlog.subset (by simp)
  have hpb : pb ∈ d.clock.taken := hlog.subset (by simp)
  -- the two are apart as readings of one clock
  have hdrift := List.pairwise_iff_forall_sublist.1 hr.drifts hlog
  have htsa := hs.ts pa hpa
  have htsb := hs.ts pb hpb
  have hahead := hdrift.ahead
  have hbehind := hdrift.behind
  unfold Resumed.Reading.phase at hahead hbehind
  simp only [secondMs] at hahead hbehind
  push_cast at hahead hbehind
  refine ⟨pa, hpa, pb, hpb, rfl, rfl, hdrift.time, hdrift.starts, hdrift.lost, ?_, ?_⟩
  · unfold backdate secondMs
    rw [htsa, htsb]
    push_cast
    linarith
  · unfold backdate secondMs
    rw [htsa, htsb]
    push_cast
    linarith

theorem dates_recovered_offBetween :
    ∃ pa ∈ ((datedMachine sntlLayout).run (.start flash₀ 0) offBetween).clock.taken,
      ∃ pb ∈ ((datedMachine sntlLayout).run (.start flash₀ 0) offBetween).clock.taken,
        pa.2 = { record₀ with seq := 0, ts := 30 } ∧ pb.2 = { record₀ with seq := 1, ts := 60 } ∧
        -999 ≤ backdate 120000 60 30 - pa.1.time -
          ((120000 - pb.1.time) + (pb.1.lost - pa.1.lost)) ∧
        backdate 120000 60 30 - pa.1.time - ((120000 - pb.1.time) + (pb.1.lost - pa.1.lost)) ≤
          999 * (1 + (pb.1.starts - pa.1.starts : ℤ)) := by
  have hram : ((datedMachine sntlLayout).run (.start flash₀ 0) offBetween).life.ram =
      some ⟨true, ⟨2, 60⟩, 30, 0⟩ := rfl
  have ha : storeGet sntlLayout ⟨true, ⟨2, 60⟩, 30, 0⟩
      ((datedMachine sntlLayout).run (.start flash₀ 0) offBetween).life.flash 0 =
        .ok { record₀ with seq := 0, ts := 30 } := rfl
  have hb : storeGet sntlLayout ⟨true, ⟨2, 60⟩, 30, 0⟩
      ((datedMachine sntlLayout).run (.start flash₀ 0) offBetween).life.flash 1 =
        .ok { record₀ with seq := 1, ts := 60 } := rfl
  obtain ⟨pa, hpa, pb, hpb, hra, hrb, -, -, -, hlow, hhigh⟩ :=
    dates_recovered (formatOf_migrated _) flash₀_blank (by decide) hram ha hb (by decide) 120000
  exact ⟨pa, hpa, pb, hpb, hra, hrb, hlow, hhigh⟩

end Dated

end PresenceNode
