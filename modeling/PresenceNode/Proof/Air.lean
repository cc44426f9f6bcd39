import PresenceNode.Proof.Record
import Mathlib.Order.Bounds.Basic

/-!
# What a window of the SEN5x reports

* `readings`: the words that the polls of the current window delivered.
* `AirReport`: a window reports these readings and nothing else.
* `fold_report`: a successful poll keeps to that.
* `sensorsAfter_report`: so does every history.
* `window_report`: what each take hands over.
-/

namespace PresenceNode

instance (t : Transfer) (words : ℕ) : Decidable (t.Good words) :=
  inferInstanceAs (Decidable (_ ∧ _ ∧ _))

/-- The polls of the current window that succeeded, latest first. -/
def goodPolls (air : Sen5x) (past : List SensorEvent) : List Transfer :=
  if air.running then (pollsSince past).filter (·.Good 8) else []

/-- What some transactions say of word `i`, where they say anything. -/
def readingsOf (ts : List Transfer) (i : ℕ) : List UInt16 :=
  (ts.map (·.word i)).filter (· ≠ 0xFFFF)

/-- **The readings of word `i`** in the current window, latest first. -/
def readings (air : Sen5x) (past : List SensorEvent) (i : ℕ) : List UInt16 :=
  readingsOf (goodPolls air past) i

/-- The greatest of some readings; unknown exactly if there is none. -/
structure PeakOf (rs : List UInt16) (v : UInt16) : Prop where
  unknown : v = sen5xUnknownU ↔ rs = []
  greatest : rs ≠ [] → IsGreatest {r | r ∈ rs} v

/-- The latest of some readings, as a signed value. -/
def LatestOf (rs : List UInt16) (v : Int16) : Prop :=
  v = (rs.head?.map UInt16.toInt16).getD sen5xUnknownS

/-- Half the latest of some readings, rounded toward zero; unknown exactly if there is none. -/
structure HalfOf (rs : List UInt16) (v : Int16) : Prop where
  unknown : v = sen5xUnknownS ↔ rs = []
  half : ∀ r ∈ rs.head?, v.toInt = r.toInt16.toInt.tdiv 2

/-- **A window reports some readings**, given for each word. -/
structure AirReport (rs : ℕ → List UInt16) (out : Sen5xWindow) : Prop where
  pm25 : PeakOf (rs 1) out.pm25
  pm10 : PeakOf (rs 3) out.pm10
  rh : LatestOf (rs 4) out.rh
  temp : HalfOf (rs 5) out.temp
  voc : LatestOf (rs 6) out.voc

/-! ## One word -/

theorem readingsOf_cons (t : Transfer) (ts : List Transfer) (i : ℕ) :
    readingsOf (t :: ts) i =
      if t.word i ≠ 0xFFFF then t.word i :: readingsOf ts i else readingsOf ts i := by
  unfold readingsOf
  rw [List.map_cons, List.filter_cons]
  simp only [decide_eq_true_eq]

theorem readingsOf_ne {ts : List Transfer} {i : ℕ} {r : UInt16} (h : r ∈ readingsOf ts i) :
    r ≠ sen5xUnknownU := by
  have hdec := (List.mem_filter.1 h).2
  exact of_decide_eq_true hdec

theorem peakOf_nil : PeakOf [] sen5xUnknownU := ⟨by simp, by simp⟩

/-- A known word joins the peak. -/
theorem peakOf_cons {rs : List UInt16} {held new : UInt16} (hnew : new ≠ 0xFFFF)
    (hrs : ∀ r ∈ rs, r ≠ sen5xUnknownU) (h : PeakOf rs held) :
    PeakOf (new :: rs) (peak held new) := by
  have hpeak : IsGreatest {r | r ∈ new :: rs} (peak held new) := by
    unfold peak
    by_cases hheld : held = sen5xUnknownU
    · -- the first known word of the window
      have hnil := h.unknown.1 hheld
      rw [if_pos ⟨hnew, .inl hheld⟩, hnil]
      refine ⟨List.mem_singleton.2 rfl, ?_⟩
      intro r hr
      rw [List.mem_singleton.1 hr]
      exact UInt16.le_refl _
    · have hne : rs ≠ [] := fun hnil => hheld (h.unknown.2 hnil)
      obtain ⟨hmem, hle⟩ := h.greatest hne
      by_cases hgt : new > held
      · rw [if_pos ⟨hnew, .inr hgt⟩]
        refine ⟨List.mem_cons_self, ?_⟩
        intro r hr
        rcases List.mem_cons.1 hr with rfl | hr
        · exact UInt16.le_refl _
        · exact UInt16.le_trans (hle hr) (UInt16.le_of_lt hgt)
      · have hcond : ¬ (new ≠ 0xFFFF ∧ (held = sen5xUnknownU ∨ new > held)) := by
          rintro ⟨-, hh | hh⟩
          · exact hheld hh
          · exact hgt hh
        rw [if_neg hcond]
        refine ⟨List.mem_cons_of_mem _ hmem, ?_⟩
        intro r hr
        rcases List.mem_cons.1 hr with rfl | hr
        · exact UInt16.not_lt.1 hgt
        · exact hle hr
  refine ⟨?_, fun _ => hpeak⟩
  constructor
  · intro hu
    exfalso
    have hmem := hpeak.1
    rw [hu] at hmem
    rcases List.mem_cons.1 hmem with hmem | hmem
    · exact hnew hmem.symm
    · exact hrs _ hmem rfl
  · intro hnil
    simp at hnil

theorem peak_readings {ts : List Transfer} {i : ℕ} {held : UInt16} (t : Transfer)
    (h : PeakOf (readingsOf ts i) held) :
    PeakOf (readingsOf (t :: ts) i) (peak held (t.word i)) := by
  rw [readingsOf_cons]
  by_cases hw : t.word i ≠ 0xFFFF
  · rw [if_pos hw]
    exact peakOf_cons hw (fun r hr => readingsOf_ne hr) h
  · have hcond : ¬ (t.word i ≠ 0xFFFF ∧ (held = sen5xUnknownU ∨ t.word i > held)) := fun hc =>
      hw hc.1
    rw [if_neg hw, peak, if_neg hcond]
    exact h

theorem latest_readings {ts : List Transfer} {i : ℕ} {held : Int16} (t : Transfer)
    (h : LatestOf (readingsOf ts i) held) :
    LatestOf (readingsOf (t :: ts) i) (latest held (t.word i) (t.word i).toInt16) := by
  rw [readingsOf_cons]
  unfold latest
  by_cases hw : t.word i ≠ 0xFFFF
  · rw [if_pos hw, if_pos hw]
    rfl
  · rw [if_neg hw, if_neg hw]
    exact h

theorem half_toInt (v : Int16) : (v / 2).toInt = v.toInt.tdiv 2 := by
  have hne : (2 : Int16) ≠ -1 := by decide
  rw [Int16.toInt_div_of_ne_right _ _ hne]
  rfl

/-- Half of a reading is in the lower half of the range. -/
theorem half_ne (v : Int16) : v / 2 ≠ sen5xUnknownS := by
  intro h
  have hint : (v / 2).toInt = sen5xUnknownS.toInt := by rw [h]
  have hmax : sen5xUnknownS.toInt = 32767 := by decide
  rw [half_toInt, hmax] at hint
  have habs : v.toInt.natAbs / 2 = 32767 := by
    have hdiv := Int.natAbs_tdiv v.toInt 2
    rw [hint] at hdiv
    exact hdiv.symm
  have hlt := v.toInt_lt
  have hle := v.le_toInt
  omega

theorem half_readings {ts : List Transfer} {i : ℕ} {held : Int16} (t : Transfer)
    (h : HalfOf (readingsOf ts i) held) :
    HalfOf (readingsOf (t :: ts) i) (latest held (t.word i) ((t.word i).toInt16 / 2)) := by
  rw [readingsOf_cons]
  unfold latest
  by_cases hw : t.word i ≠ 0xFFFF
  · rw [if_pos hw, if_pos hw]
    refine ⟨?_, ?_⟩
    · constructor
      · intro hu
        exact absurd hu (half_ne _)
      · intro hnil
        simp at hnil
    · intro r hr
      simp only [List.head?_cons, Option.mem_some_iff] at hr
      rw [← hr, half_toInt]
  · rw [if_neg hw, if_neg hw]
    exact h

/-! ## The window -/

theorem unknown_report : AirReport (readingsOf []) .unknown :=
  ⟨peakOf_nil, peakOf_nil, rfl, ⟨by simp [readingsOf, Sen5xWindow.unknown], by simp [readingsOf]⟩,
    rfl⟩

/-- **A successful poll** adds its words. -/
theorem fold_report {ts : List Transfer} {acc : Sen5xWindow} (t : Transfer)
    (h : AirReport (readingsOf ts) acc) : AirReport (readingsOf (t :: ts)) (acc.fold t.word) :=
  ⟨peak_readings t h.pm25, peak_readings t h.pm10, latest_readings t h.rh,
    half_readings t h.temp, latest_readings t h.voc⟩

/-- A poll that does not succeed changes nothing. -/
theorem sen5xPoll_failed {s : Sen5x} {t : Transfer} (h : ¬ t.Good 8) : sen5xPoll s t = s := by
  unfold sen5xPoll
  split
  · cases hr : readWords t 8 with
    | error e => rfl
    | ok w => exact absurd (readWords_ok_iff.1 hr).1 h
  · rfl

theorem sen5xPoll_good {s : Sen5x} {t : Transfer} (hrun : s.running = true) (h : t.Good 8) :
    sen5xPoll s t = { s with acc := s.acc.fold t.word } := by
  unfold sen5xPoll
  rw [if_pos hrun, readWords_ok_iff.2 ⟨h, rfl⟩]

theorem sen5xPoll_stopped {s : Sen5x} (t : Transfer) (hrun : s.running = false) :
    sen5xPoll s t = s := by
  unfold sen5xPoll
  rw [hrun]
  rfl

theorem goodPolls_nil (air : Sen5x) {past : List SensorEvent} (h : pollsSince past = []) :
    goodPolls air past = [] := by
  unfold goodPolls
  rw [h]
  split <;> rfl

theorem goodPolls_poll (air : Sen5x) (t : Transfer) (past : List SensorEvent) :
    goodPolls air (.poll t :: past) =
      if air.running = true ∧ t.Good 8 then t :: goodPolls air past else goodPolls air past := by
  unfold goodPolls
  simp only [pollsSince, List.filter_cons, decide_eq_true_eq]
  cases air.running with
  | false => simp
  | true => simp

/-- **Every history keeps to it**: the accumulator reports the readings of the window. -/
theorem sensorsAfter_report {air : Sen5x} (hair : air.acc = .unknown) (past : List SensorEvent) :
    AirReport (readings air past) (sensorsAfter air past).air.acc := by
  induction past with
  | nil =>
    unfold readings
    rw [goodPolls_nil air rfl]
    simp only [sensorsAfter, hair]
    exact unknown_report
  | cons e past ih =>
    cases e with
    | frame frame now =>
      have hair' : (sensorsAfter air (.frame frame now :: past)).air = (sensorsAfter air past).air := by
        simp only [sensorsAfter, Sensors.step]
        split <;> rfl
      rw [hair']
      exact ih
    | poll t =>
      have hrun := sensorsAfter_running air past
      unfold readings
      rw [goodPolls_poll]
      simp only [sensorsAfter, Sensors.step]
      by_cases hgood : air.running = true ∧ t.Good 8
      · rw [if_pos hgood, sen5xPoll_good (hrun.trans hgood.1) hgood.2]
        exact fold_report t ih
      · rw [if_neg hgood]
        by_cases hg : t.Good 8
        · have hoff : air.running = false := by
            rw [← Bool.not_eq_true]
            exact fun hon => hgood ⟨hon, hg⟩
          rw [sen5xPoll_stopped t (hrun.trans hoff)]
          exact ih
        · rw [sen5xPoll_failed hg]
          exact ih
    | flush now status =>
      unfold readings
      rw [goodPolls_nil air rfl]
      exact unknown_report

/-- A take reports the accumulator, but for whether the sensor is alive. -/
theorem window_take_report {rs : ℕ → List UInt16} {s : Sen5x} (status : Transfer)
    (h : AirReport rs s.acc) : AirReport rs (sen5xWindowTake s status).1 := by
  unfold sen5xWindowTake
  simp only
  split
  · split
    · exact h
    · split
      · exact ⟨h.pm25, h.pm10, h.rh, h.temp, h.voc⟩
      · exact h
  · exact h

theorem sen5xStart_unknown (ready : Bool) (cmd : ℤ) : (sen5xStart ready cmd).2.acc = .unknown := by
  unfold sen5xStart
  split
  · split <;> rfl
  · rfl

/-- **What each window hands over**: after any history, the peaks and the latest values of the
readings since the last take. A failed poll changes nothing, and a take leaves nothing. -/
theorem sen5xWindow_report (ready : Bool) (cmd : ℤ) (past : List SensorEvent) :
    (∀ status, AirReport (readings (sen5xStart ready cmd).2 past)
        (sen5xWindowTake (sensorsAfter (sen5xStart ready cmd).2 past).air status).1) ∧
      (∀ s t, t.Good 8 ∨ sen5xPoll s t = s) ∧
      ∀ s status, (sen5xWindowTake s status).2 = ⟨s.running, .unknown⟩ := by
  refine ⟨?_, ?_, ?_⟩
  · intro status
    exact window_take_report status (sensorsAfter_report (sen5xStart_unknown ready cmd) past)
  · intro s t
    by_cases hg : t.Good 8
    · exact .inl hg
    · exact .inr (sen5xPoll_failed hg)
  · intro s status
    rfl

end PresenceNode
