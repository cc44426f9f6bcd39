import PresenceNode.Proof.Link
import PresenceNode.Proof.Memory
import PresenceNode.Spec.Station

/-!
# From the bytes of the UART to the records in flash

* `step_calls`: the frames that the thread completes are the calls that the windows count.
* `Coupled`, `step_coupled`: the thread and the recorder see the same calls, in every window.
* `next_window`: by itself the node goes through what has come in and comes to a flush.
* `station_records`: a record that can be read tells of a window, and the calls of the window are
  frames of the stream.
* `station_progress`: the next window counts all that has come in.
-/

namespace PresenceNode

variable {σ : Type} {F : RxRing σ}

/-! ## The calls -/

/-- The calls that a frame makes. -/
def frameCalls (frame : Option (List UInt8)) (now : ℤ) : List RadarEvent :=
  ((frame.bind decided).map (RadarEvent.frame · now)).toList

/-- **The frames that the thread completes** are the calls on `acc`. -/
theorem RadarLink.step_calls (l : RadarLink σ) (now : ℤ) {s : LinkStep} (hs : s ≠ .take) :
    (l.step F (now, s)).calls = frameCalls (l.completes (now, s)) now ++ l.calls := by
  cases s with
  | isr update reads => rfl
  | cliGet =>
    simp only [step]
    split <;> rfl
  | configured rc =>
    simp only [step, configured]
    split
    · split_ifs <;> rfl
    · rfl
  | look =>
    simp only [step, look]
    split
    · split_ifs <;> rfl
    · rfl
  | push =>
    simp only [step, push, completes]
    rcases hpc : l.node.pc with _ | _ | chunk | chunk
    · rfl
    · rfl
    · cases chunk with
      | nil => rfl
      | cons b chunk =>
        simp only
        cases (l.node.step (now, .push)).pc <;> rfl
    · rfl
  | resume => rfl
  | take => exact absurd rfl hs

theorem radarPast_frame (frame : List UInt8) (now : ℤ) (past : List SensorEvent) :
    radarPast (.frame frame now :: past) = frameCalls (some frame) now ++ radarPast past := by
  unfold frameCalls
  simp only [radarPast, Option.bind_some]
  cases decided frame <;> rfl

namespace Recorder

/-- `sec` stays below the period. -/
theorem step_sec (r : Recorder) (e : RecorderEvent) (h : r.sec.toNat < storePeriodS) :
    (r.step e).sec.toNat < storePeriodS := by
  cases e with
  | boot fates ready cmd => exact storePeriodS_pos
  | poll t =>
    simp only [step]
    split_ifs
    · obtain ⟨hcount, hnext⟩ := count_sec (r.sense (.poll t)) h
      rw [hcount]
      split_ifs with hfull
      · exact storePeriodS_pos
      · exact lt_of_le_of_ne (hnext ▸ h) (hnext ▸ hfull)
    · exact h
  | frame frame now | flush now status up fates =>
    simp only [step]
    split_ifs <;> exact h
  | off => exact h

theorem poll_past (r : Recorder) (t : Transfer) :
    radarPast (r.step (.poll t)).past = radarPast r.past ∧
      (r.step (.poll t)).flushes = r.flushes := by
  simp only [step]
  split_ifs
  · unfold count
    simp only
    split_ifs <;> exact ⟨rfl, rfl⟩
  · exact ⟨rfl, rfl⟩

end Recorder

namespace Station

open RadarLink

/-- A state of the ring and the thread in a run from power-up. -/
def Reached (F : RxRing σ) (l : RadarLink σ) : Prop :=
  ∃ evs, l = (linkMachine F).run (.powerUp F) evs

theorem reached_step {l : RadarLink σ} (h : Reached F l) (e : ℤ × LinkStep) :
    Reached F (l.step F e) := by
  obtain ⟨evs, rfl⟩ := h
  refine ⟨evs ++ [e], ?_⟩
  rw [Machine.run_append]
  rfl

/-- **The thread and the recorder see the same calls**, now and in every window. -/
structure Coupled (F : RxRing σ) (s : Station σ) : Prop where
  calls : s.link.calls = radarPast s.recorder.past
  reached : Reached F s.link
  flushes : s.windows.map Window.flush = s.recorder.flushes
  windows : ∀ w ∈ s.windows, w.link.calls = radarPast w.flush.past ∧ Reached F w.link

theorem start_coupled (F : RxRing σ) (fl : Flash) : Coupled F (start F fl) where
  calls := rfl
  reached := ⟨[], rfl⟩
  flushes := rfl
  windows _ hw := absurd hw List.not_mem_nil

theorem radar_coupled {s : Station σ} (h : Coupled F s) (hon : s.recorder.life.ram.isSome)
    (now : ℤ) {e : LinkStep} (he : e ≠ .take) : Coupled F (s.radar F (now, e)) := by
  have hcalls := RadarLink.step_calls (F := F) s.link now he
  rw [h.calls] at hcalls
  unfold radar
  cases hc : s.link.completes (now, e) with
  | none =>
    rw [hc] at hcalls
    exact ⟨hcalls, reached_step h.reached _, h.flushes, h.windows⟩
  | some frame =>
    have hstep : s.recorder.step (.frame frame now) = s.recorder.sense (.frame frame now) := by
      simp only [Recorder.step, if_pos hon]
    simp only [hstep]
    rw [hc, ← radarPast_frame] at hcalls
    exact ⟨hcalls, reached_step h.reached _, h.flushes, h.windows⟩

/-- **Every event** keeps them together. -/
theorem step_coupled (s : Station σ) (e : StationEvent) (h : Coupled F s) :
    Coupled F (s.step F e) := by
  cases e with
  | boot fates ready cmd => exact ⟨rfl, ⟨[], rfl⟩, h.flushes, h.windows⟩
  | radar now e =>
    by_cases he : e = .take
    · rw [he]
      exact h
    · have hstep : s.step F (.radar now e) =
          if s.recorder.life.ram.isSome then s.radar F (now, e) else s := by
        cases e with
        | take => exact absurd rfl he
        | _ => rfl
      rw [hstep]
      split_ifs with hon
      · exact radar_coupled h hon now he
      · exact h
  | poll t =>
    obtain ⟨hpast, hflushes⟩ := s.recorder.poll_past t
    exact ⟨h.calls.trans hpast.symm, h.reached, h.flushes.trans hflushes.symm, h.windows⟩
  | flush now status up fates =>
    simp only [step]
    split_ifs with hrun
    · rw [Recorder.step_flush hrun]
      refine ⟨?_, reached_step h.reached (now, .take), ?_, ?_⟩
      · exact congrArg (RadarEvent.take now :: ·) h.calls
      · exact congrArg (Flush.mk s.recorder.air s.recorder.past now status :: ·) h.flushes
      · intro w hw
        rcases List.mem_cons.1 hw with rfl | hw
        · exact ⟨h.calls, h.reached⟩
        · exact h.windows w hw
    · exact h
  | off => exact ⟨h.calls, h.reached, h.flushes, h.windows⟩

/-! ## The records -/

/-- **The recorder of the node** goes on by its own events, in order if the node's are. -/
theorem step_recorder (s : Station σ) (e : StationEvent) :
    ∃ es, (s.step F e).recorder = recorderMachine.run s.recorder es ∧
      (Coupled F s → s.InOrder e → recorderMachine.Guarded Recorder.InOrder s.recorder es) := by
  cases e with
  | boot fates ready cmd => exact ⟨[.boot fates ready cmd], rfl, fun _ _ => ⟨trivial, trivial⟩⟩
  | radar now e =>
    have hradar : ∃ es, (s.radar F (now, e)).recorder = recorderMachine.run s.recorder es ∧
        (Coupled F s → True → recorderMachine.Guarded Recorder.InOrder s.recorder es) := by
      unfold radar
      cases s.link.completes (now, e) with
      | none => exact ⟨[], rfl, fun _ _ => trivial⟩
      | some frame => exact ⟨[.frame frame now], rfl, fun _ _ => ⟨trivial, trivial⟩⟩
    cases e with
    | take => exact ⟨[], rfl, fun _ _ => trivial⟩
    | _ =>
      simp only [step]
      split_ifs
      · exact hradar
      · exact ⟨[], rfl, fun _ _ => trivial⟩
  | poll t => exact ⟨[.poll t], rfl, fun _ _ => ⟨trivial, trivial⟩⟩
  | flush now status up fates =>
    simp only [step]
    split_ifs
    · refine ⟨[.flush now status up fates], rfl, fun hc hg => ⟨?_, trivial⟩⟩
      show Timely (.take now :: radarPast s.recorder.past)
      rw [← hc.calls]
      exact hg
    · exact ⟨[], rfl, fun _ _ => trivial⟩
  | off => exact ⟨[.off], rfl, fun _ _ => ⟨trivial, trivial⟩⟩

theorem step_sound (s : Station σ) (e : StationEvent) (h : Coupled F s ∧ s.recorder.Sound)
    (hg : s.InOrder e) : Coupled F (s.step F e) ∧ (s.step F e).recorder.Sound := by
  obtain ⟨es, hes, hguarded⟩ := step_recorder (F := F) s e
  refine ⟨step_coupled s e h.1, ?_⟩
  rw [hes]
  exact Recorder.run_sound h.2 (hguarded h.1 hg)

theorem run_sound (F : RxRing σ) (fl : Flash) {evs : List StationEvent}
    (hg : (stationMachine F).Guarded InOrder (start F fl) evs) :
    Coupled F ((stationMachine F).run (start F fl) evs) ∧
      ((stationMachine F).run (start F fl) evs).recorder.Sound :=
  Machine.run_invariant (M := stationMachine F) step_sound
    ⟨start_coupled F fl, Recorder.start_sound fl⟩ hg

/-- Its records tell of its flushes. -/
theorem run_held {fl : Flash} (hb : Blank sntlLayout fl) {evs : List StationEvent}
    (hg : (stationMachine F).Guarded InOrder (start F fl) evs) :
    ((stationMachine F).run (start F fl) evs).recorder.Held := by
  have hstep : ∀ (s : Station σ) e, (Coupled F s ∧ s.recorder.Sound) ∧ s.recorder.Held →
      s.InOrder e → (Coupled F (s.step F e) ∧ (s.step F e).recorder.Sound) ∧
        (s.step F e).recorder.Held := by
    intro s e h hg
    obtain ⟨es, hes, hguarded⟩ := step_recorder (F := F) s e
    refine ⟨step_sound s e h.1 hg, ?_⟩
    rw [hes]
    exact Recorder.run_held h.1.2 h.2 (hguarded h.1.1 hg)
  exact (Machine.run_invariant (M := stationMachine F) hstep
    ⟨⟨start_coupled F fl, Recorder.start_sound fl⟩, Recorder.start_held hb⟩ hg).2

/-- The windows are coupled in every run. -/
theorem run_coupled (F : RxRing σ) (fl : Flash) (evs : List StationEvent) :
    Coupled F ((stationMachine F).run (start F fl) evs) :=
  Machine.run_keeps (M := stationMachine F) step_coupled (start_coupled F fl) evs

/-- While the sensor streams, the thread follows it. -/
theorem Reached.follows {l : RadarLink σ} (h : Reached F l) (hon : l.node.pc ≠ .configuring) :
    l.Follows := by
  obtain ⟨evs, rfl⟩ := h
  exact (RadarLink.run_synced evs).resolve_left hon

/-- What it hands on are frames of the stream; all of them, when the thread is through. -/
theorem Reached.handed {l : RadarLink σ} (h : Reached F l) (hon : l.node.pc ≠ .configuring)
    {ps : List (List UInt8 × List UInt8)} {last : List UInt8} (hr : l.Receives ps last) :
    l.handed <+: ps.map Prod.snd ∧ (l.Idle F → l.handed = ps.map Prod.snd) := by
  have hf := h.follows hon
  obtain ⟨evs, rfl⟩ := h
  have hb := RadarLink.run_link_books (F := F) evs
  exact ⟨hr.handed_prefix hf hb, hr.handed_idle hf hb⟩

/-! ## The next window -/

/-- What steps of the thread and iterations of the main loop leave alone. -/
structure Kept (s s' : Station σ) : Prop where
  life : s'.recorder.life = s.recorder.life
  boots : s'.boots = s.boots
  windows : s'.windows = s.windows

theorem Kept.trans {s₁ s₂ s₃ : Station σ} (h : Kept s₁ s₂) (h' : Kept s₂ s₃) : Kept s₁ s₃ :=
  ⟨h'.life.trans h.life, h'.boots.trans h.boots, h'.windows.trans h.windows⟩

/-- Steps of the thread, as events of the node. -/
def threadEvents (thread : List (ℤ × LinkStep)) : List StationEvent :=
  thread.map fun e => .radar e.1 e.2

/-- **The thread's own steps** move the node as they move the thread. -/
theorem run_radar {s : Station σ} (hon : s.recorder.life.ram.isSome)
    {evs : List (ℤ × LinkStep)} (hevs : ∀ e ∈ evs, e.2 ≠ .take) {s' : Station σ}
    (hs' : s' = (stationMachine F).run s (threadEvents evs)) :
    s'.link = (linkMachine F).run s.link evs ∧ s'.recorder.sec = s.recorder.sec ∧
      s'.recorder.due = s.recorder.due ∧ Kept s s' := by
  induction evs generalizing s with
  | nil =>
    rw [hs']
    exact ⟨rfl, rfl, rfl, rfl, rfl, rfl⟩
  | cons e evs ih =>
    obtain ⟨now, e⟩ := e
    have he : e ≠ .take := hevs (now, e) List.mem_cons_self
    have hstep : s.step F (.radar now e) = s.radar F (now, e) := by
      cases e with
      | take => exact absurd rfl he
      | _ => exact if_pos hon
    have hrecorder : (s.radar F (now, e)).recorder.life = s.recorder.life ∧
        (s.radar F (now, e)).recorder.sec = s.recorder.sec ∧
        (s.radar F (now, e)).recorder.due = s.recorder.due := by
      unfold radar
      cases s.link.completes (now, e) with
      | none => exact ⟨rfl, rfl, rfl⟩
      | some frame =>
        simp only [Recorder.step, if_pos hon]
        exact ⟨rfl, rfl, rfl⟩
    obtain ⟨hlife, hsec, hdue⟩ := hrecorder
    unfold threadEvents at hs'
    rw [List.map_cons, Machine.run_cons] at hs'
    have hrest := ih (s := s.radar F (now, e)) (by rw [hlife]; exact hon)
      (fun e' he' => hevs e' (List.mem_cons_of_mem _ he')) (hs'.trans (by rw [← hstep]; rfl))
    obtain ⟨hlink, hsec', hdue', hkept⟩ := hrest
    exact ⟨hlink, hsec'.trans hsec, hdue'.trans hdue, Kept.trans ⟨hlife, rfl, rfl⟩ hkept⟩

/-- An iteration counts, and a flush is due with the last one of a period. -/
theorem poll_counts {r : Recorder} (hon : r.life.ram.isSome) (hdue : r.due = false)
    (hsec : r.sec.toNat < storePeriodS) (t : Transfer) :
    (r.step (.poll t)).life = r.life ∧
      if r.sec.toNat + 1 = storePeriodS then (r.step (.poll t)).due = true
      else (r.step (.poll t)).due = false ∧ (r.step (.poll t)).sec.toNat = r.sec.toNat + 1 := by
  have hstep : r.step (.poll t) = (r.sense (.poll t)).count := by
    simp only [Recorder.step, if_pos (And.intro hon hdue)]
  obtain ⟨hcount, hnext⟩ := Recorder.count_sec (r.sense (.poll t)) hsec
  rw [hstep, hcount]
  by_cases hfull : r.sec.toNat + 1 = storePeriodS
  · rw [if_pos hfull, if_pos (show (r.sense (.poll t)).sec.toNat + 1 = _ from hfull)]
    exact ⟨rfl, rfl⟩
  · rw [if_neg hfull, if_neg (show ¬ (r.sense (.poll t)).sec.toNat + 1 = _ from hfull)]
    exact ⟨rfl, hdue, hnext⟩

/-- **The main loop's own iterations** make a flush due, 30 of them at most. -/
theorem run_polls {s : Station σ} (hon : s.recorder.life.ram.isSome)
    (hsec : s.recorder.sec.toNat < storePeriodS) (t : Transfer) :
    ∃ n ≤ storePeriodS, ∃ s', s' = (stationMachine F).run s (List.replicate n (.poll t)) ∧
      s'.recorder.due = true ∧ s'.link = s.link ∧ Kept s s' := by
  by_cases hdue : s.recorder.due = true
  · exact ⟨0, Nat.zero_le _, s, rfl, hdue, rfl, rfl, rfl, rfl⟩
  -- induction on how many are missing
  suffices h : ∀ n (s : Station σ), s.recorder.life.ram.isSome → s.recorder.due = false →
      s.recorder.sec.toNat + (n + 1) = storePeriodS →
      ∃ s', s' = (stationMachine F).run s (List.replicate (n + 1) (.poll t)) ∧
        s'.recorder.due = true ∧ s'.link = s.link ∧ Kept s s' by
    obtain ⟨n, hn⟩ : ∃ n, s.recorder.sec.toNat + (n + 1) = storePeriodS :=
      ⟨storePeriodS - s.recorder.sec.toNat - 1, by omega⟩
    exact ⟨n + 1, by omega, h n s hon (Bool.not_eq_true _ ▸ hdue) hn⟩
  intro n
  induction n with
  | zero =>
    intro s hon hdue hn
    obtain ⟨hlife, hfull⟩ := poll_counts hon hdue (by omega) t
    rw [if_pos hn] at hfull
    exact ⟨_, rfl, hfull, rfl, hlife, rfl, rfl⟩
  | succ n ih =>
    intro s hon hdue hn
    obtain ⟨hlife, hnext⟩ := poll_counts hon hdue (by omega) t
    rw [if_neg (by omega)] at hnext
    obtain ⟨s', hs', hdue', hlink, hkept⟩ := ih (s.step F (.poll t))
      (by
        show (s.recorder.step (.poll t)).life.ram.isSome
        rw [hlife]
        exact hon) hnext.1
      (by
        show (s.recorder.step (.poll t)).sec.toNat + (n + 1) = storePeriodS
        omega)
    have hfirst : Kept s (s.step F (.poll t)) := ⟨hlife, rfl, rfl⟩
    exact ⟨s', hs', hdue', hlink, hfirst.trans hkept⟩

/-- **To the next window**: the thread goes through what has come in, and then the main loop comes to
a flush. -/
theorem next_window {s : Station σ} (hreached : Reached F s.link)
    (hsec : s.recorder.sec.toNat < storePeriodS) (hon : s.recorder.life.ram.isSome)
    (hstream : s.link.node.pc ≠ .configuring) {now : ℤ}
    (hsoon : now - s.link.node.lastFrame < radarStallMs) (t : Transfer) :
    ∃ thread, (∀ e ∈ thread, e.1 = now ∧ RadarLink.ThreadStep e.2) ∧ ∃ n ≤ storePeriodS,
      ∃ s', s' = (stationMachine F).run s (threadEvents thread ++ List.replicate n (.poll t)) ∧
        Kept s s' ∧ s'.recorder.due = true ∧ Reached F s'.link ∧ s'.link.Idle F ∧
        RadarLink.Steady now s.link s'.link := by
  obtain ⟨evs, hl⟩ := hreached
  have hrunning : RadarLink.Running now s.link := by
    rw [hl] at hstream hsoon ⊢
    exact RadarLink.run_running hstream hsoon
  obtain ⟨thread, hthread, hsteady, hidle⟩ := RadarLink.catches_up (F := F) hrunning
  have hno : ∀ e ∈ thread, e.2 ≠ .take := by
    intro e he htake
    have h := (hthread e he).2
    rw [htake] at h
    cases h
  obtain ⟨hlink, hsec₁, -, hkept₁⟩ := run_radar (F := F) hon hno rfl
  set s₁ := (stationMachine F).run s (threadEvents thread) with hs₁
  obtain ⟨n, hn, s', hs', hdue, hlink', hkept'⟩ := run_polls (F := F) (s := s₁)
    (by rw [hkept₁.life]; exact hon) (by rw [hsec₁]; exact hsec) t
  rw [← hlink, ← hlink'] at hsteady hidle
  refine ⟨thread, hthread, n, hn, s', ?_, hkept₁.trans hkept', hdue, ?_, hidle, hsteady⟩
  · rw [Machine.run_append, ← hs₁, hs']
  · rw [hlink', hlink, hl, ← Machine.run_append]
    exact ⟨_, rfl⟩

/-- **A flush that is due** is one more window. -/
theorem flush_windows {s : Station σ} (hon : s.recorder.life.ram.isSome)
    (hdue : s.recorder.due = true) (now : ℤ) (status : Transfer) (up : ℕ) (fates : List Fate) :
    (s.step F (.flush now status up fates)).windows =
      ⟨s.boots, ⟨s.recorder.air, s.recorder.past, now, status⟩, s.link⟩ :: s.windows := by
  simp only [step, if_pos (And.intro hon hdue)]

theorem step_reached_sec (s : Station σ) (e : StationEvent)
    (h : Coupled F s ∧ s.recorder.sec.toNat < storePeriodS) :
    Coupled F (s.step F e) ∧ (s.step F e).recorder.sec.toNat < storePeriodS := by
  obtain ⟨es, hes, -⟩ := step_recorder (F := F) s e
  refine ⟨step_coupled s e h.1, ?_⟩
  rw [hes]
  exact Machine.run_keeps (M := recorderMachine) Recorder.step_sec h.2 es

/-! ## The records -/

/-- **From the bytes to the record.** Over every run of boots, interrupts, steps of the thread,
iterations of the main loop and losses of power: a record that can be read tells of one window of
the run. While the sensor streams, the calls that the window is made of are, since the sensor was
configured, the frames the thread handed on; and if whole frames had come in, these are the first of
them, and all of them if the thread was through. -/
theorem station_records (F : RxRing σ) {fl : Flash} (hb : Blank sntlLayout fl)
    {evs : List StationEvent} (hg : (stationMachine F).Guarded InOrder (start F fl) evs)
    {ram : Ram} {seq : UInt32} {rec : SntlRecord}
    (hget : storeGet sntlLayout ram ((stationMachine F).run (start F fl) evs).recorder.life.flash seq =
      .ok rec) :
    ∃ w ∈ ((stationMachine F).run (start F fl) evs).windows, Tells w.flush rec ∧
      radarPast w.flush.past = w.link.calls ∧
      (w.link.node.pc ≠ .configuring → ∃ newer, w.link.calls = newer ++ w.link.older ∧
        (newer.reverse.filterMap RadarEvent.meaning).map some = w.link.handed.map decided ∧
        ∀ ps last, w.link.Receives ps last → w.link.handed <+: ps.map Prod.snd ∧
          (w.link.Idle F → w.link.handed = ps.map Prod.snd)) := by
  have hc := run_coupled F fl evs
  have hh := run_held (F := F) hb hg
  obtain ⟨-, -, -, hheld, -⟩ := storeGet_ok_iff.1 hget
  obtain ⟨f, hf, htells⟩ := hh seq rec hheld
  rw [← hc.flushes] at hf
  obtain ⟨w, hw, rfl⟩ := List.mem_map.1 hf
  obtain ⟨hcalls, hreached⟩ := hc.windows w hw
  refine ⟨w, hw, htells, hcalls.symm, fun hon => ?_⟩
  obtain ⟨newer, hnewer, hsaid⟩ := (hreached.follows hon).said
  exact ⟨newer, hnewer, hsaid, fun ps last hr => hreached.handed hon hr⟩

/-- **A frame has come in** and was not looked at: the only one since the sensor was configured. -/
structure Hears (evs : List StationEvent) (now : ℤ) (past : List RadarEvent) : Prop where
  inOrder : (stationMachine listRing).Guarded InOrder (start listRing flash₀) evs
  on : ((stationMachine listRing).run (start listRing flash₀) evs).recorder.life.ram.isSome
  streams : ((stationMachine listRing).run (start listRing flash₀) evs).link.node.pc ≠ .configuring
  soon : now - ((stationMachine listRing).run (start listRing flash₀) evs).link.node.lastFrame <
    radarStallMs
  receives :
    ((stationMachine listRing).run (start listRing flash₀) evs).link.Receives [([], bareFrame)] []
  older : ((stationMachine listRing).run (start listRing flash₀) evs).link.older = []
  calls : ((stationMachine listRing).run (start listRing flash₀) evs).link.calls = past
  unseen : past.filterMap RadarEvent.meaning = []

/-- Only a flush has to be in order. -/
theorem inOrder_own {s : Station σ} {evs : List StationEvent}
    (h : ∀ e ∈ evs, (∃ now step, e = .radar now step) ∨ ∃ t, e = .poll t) :
    (stationMachine F).Guarded InOrder s evs := by
  induction evs generalizing s with
  | nil => trivial
  | cons e evs ih =>
    refine ⟨?_, ih fun e' he' => h e' (List.mem_cons_of_mem _ he')⟩
    rcases h e List.mem_cons_self with ⟨now, step, rfl⟩ | ⟨t, rfl⟩ <;> trivial

theorem own_events (thread : List (ℤ × LinkStep)) (n : ℕ) (t : Transfer) :
    ∀ e ∈ threadEvents thread ++ List.replicate n (.poll t),
      (∃ now step, e = .radar now step) ∨ ∃ t, e = .poll t := by
  intro e he
  rcases List.mem_append.1 he with he | he
  · obtain ⟨⟨now, step⟩, -, rfl⟩ := List.mem_map.1 he
    exact .inl ⟨now, step, rfl⟩
  · rw [List.eq_of_mem_replicate he]
    exact .inr ⟨t, rfl⟩

/-- **By itself the node counts it**, and comes to a flush. -/
theorem Hears.next {evs : List StationEvent} {now : ℤ} {past : List RadarEvent}
    (h : Hears evs now past) : ∃ own s',
      s' = (stationMachine listRing).run (start listRing flash₀) (evs ++ own) ∧
      (stationMachine listRing).Guarded InOrder (start listRing flash₀) (evs ++ own) ∧
      Kept ((stationMachine listRing).run (start listRing flash₀) evs) s' ∧
      s'.recorder.due = true ∧ s'.link.Idle listRing ∧ s'.link.Receives [([], bareFrame)] [] ∧
      s'.link.older = [] ∧ ∃ d, s'.link.calls = .frame d now :: past := by
  obtain ⟨hc, hsec⟩ := Machine.run_keeps (M := stationMachine listRing) step_reached_sec
    ⟨start_coupled listRing flash₀, Recorder.storePeriodS_pos⟩ evs
  obtain ⟨thread, -, n, -, s', hs', hkept, hdue, hreached, hidle, hsteady⟩ :=
    next_window (F := listRing) hc.reached hsec h.on h.streams h.soon quietAir
  have hreceives := h.receives.steady hsteady
  have holder : s'.link.older = [] := hsteady.older.trans h.older
  obtain ⟨ds, hds⟩ := hsteady.calls
  rw [h.calls] at hds
  -- one frame has come in, so one was counted
  have hone : ds.length = 1 := by
    rw [(hreached.follows hidle.on).counted holder hds h.unseen,
      (hreached.handed hidle.on hreceives).2 hidle]
    rfl
  obtain ⟨d, rfl⟩ := List.length_eq_one_iff.1 hone
  refine ⟨threadEvents thread ++ List.replicate n (.poll quietAir), s', ?_, ?_, hkept, hdue, hidle,
    hreceives, holder, d, hds⟩
  · rw [hs', ← Machine.run_append]
  · exact Machine.guarded_append.2 ⟨h.inOrder, inOrder_own (own_events thread n quietAir)⟩

/-- The sensor is configured, and a frame comes in. -/
def firstHeard : List StationEvent :=
  [.boot [] true 0, .radar 1000 (.configured 0),
    .radar 1001 (.isr true [.bytes ⟨bareFrame, bareFrame_length⟩])]

theorem bareFrame_gaps : ∀ p ∈ [(([] : List UInt8), bareFrame)],
    tlvFraming.IsGap p.1 ∧ tlvFraming.IsFrame p.2 := by
  intro p hp
  rw [List.mem_singleton.1 hp]
  exact ⟨.free (by unfold Framing.Free; decide), bareFrame_clean.toIsFrame⟩

theorem empty_gap : tlvFraming.IsGap [] := .free (by unfold Framing.Free; decide)

theorem firstHeard_hears : Hears firstHeard 1001 [] where
  inOrder := ⟨trivial, trivial, trivial, trivial⟩
  on := rfl
  streams hc := RadarPc.noConfusion hc
  soon := by decide
  receives := ⟨rfl, rfl, bareFrame_gaps, empty_gap⟩
  older := rfl
  calls := rfl
  unseen := rfl

/-- A flush into a fresh store leaves a record that can be read. -/
theorem flush_read {s : Station σ} (hram : s.recorder.life.ram = some ram₀)
    (hflash : s.recorder.life.flash = flash₀) (hdue : s.recorder.due = true) (now : ℤ)
    (status : Transfer) (up : ℕ) :
    ∃ ram rec, storeGet sntlLayout ram
      (s.step F (.flush now status up [])).recorder.life.flash 0 = .ok rec := by
  have hon : s.recorder.life.ram.isSome := by rw [hram]; rfl
  have hfresh : PresenceNode.Sound sntlLayout s.recorder.life.flash ram₀ (.fresh 0 0) := by
    rw [hflash]
    exact history_sound (A := ∅) (by simp) (history_empty ∅ sntlLayout)
  obtain ⟨-, hafter⟩ := append_sound hram hfresh (by decide)
    (windowFlush s.recorder.sensors now status).1 up
  obtain ⟨rec, -, hget⟩ := sound_held hafter (s := 0) ((Ledger.oldest_le_iff _).2
    ⟨le_rfl, Nat.le_add_left _ _⟩) (Nat.lt_succ_self 0) (fun h => Bool.noConfusion h)
  refine ⟨ram₀.bump up, rec, ?_⟩
  simp only [step, if_pos (And.intro hon hdue), Recorder.step_flush ⟨hon, hdue⟩]
  exact hget

/-- The record of a window that counts one frame. -/
theorem station_records_heard : ∃ evs seq rec ram, ∃ w ∈ ((stationMachine listRing).run
      (start listRing flash₀) evs).windows,
    storeGet sntlLayout ram ((stationMachine listRing).run (start listRing flash₀)
      evs).recorder.life.flash seq = .ok rec ∧ Tells w.flush rec ∧
    w.link.handed = [bareFrame] ∧ radarPast w.flush.past = w.link.calls := by
  obtain ⟨own, s', hs', hinOrder, hkept, hdue, hidle, hreceives, -, d, hcalls⟩ :=
    firstHeard_hears.next
  set evs := firstHeard ++ own ++ [.flush 30000 quietAir 30000 []] with hevs
  have hon : s'.recorder.life.ram.isSome := by
    rw [hkept.life]
    exact firstHeard_hears.on
  have hrun : (stationMachine listRing).run (start listRing flash₀) evs =
      s'.step listRing (.flush 30000 quietAir 30000 []) := by
    rw [hevs, Machine.run_append, ← hs']
    rfl
  have hg : (stationMachine listRing).Guarded InOrder (start listRing flash₀) evs := by
    refine Machine.guarded_append.2 ⟨hinOrder, ?_, trivial⟩
    rw [← hs']
    show Timely (.take 30000 :: s'.link.calls)
    rw [hcalls]
    simp [Timely, RadarEvent.time, sinceTake]
  have hwindows := flush_windows (F := listRing) hon hdue 30000 quietAir 30000 []
  rw [← hrun, hkept.windows] at hwindows
  -- the flush goes to the store as the boot left it
  obtain ⟨ram, rec, hget⟩ := flush_read (F := listRing) (s := s') (by rw [hkept.life]; rfl)
    (by rw [hkept.life]; rfl) hdue 30000 quietAir 30000
  rw [← hrun] at hget
  obtain ⟨w, hw, htells, hpast, hframes⟩ := station_records listRing (recAt_migrated _) hg hget
  have hwin : w = ⟨s'.boots, ⟨s'.recorder.air, s'.recorder.past, 30000, quietAir⟩, s'.link⟩ := by
    rw [hwindows] at hw
    exact List.mem_singleton.1 hw
  have hlink : w.link = s'.link := by rw [hwin]
  obtain ⟨-, -, -, hall⟩ := hframes (by rw [hlink]; exact hidle.on)
  have hhanded := (hall [([], bareFrame)] [] (by rw [hlink]; exact hreceives)).2
    (by rw [hlink]; exact hidle)
  exact ⟨evs, 0, rec, ram, w, hw, hget, htells, hhanded, hpast⟩

/-- **What has come in gets recorded.** From any state of any run, with the power on and the sensor
streaming and not stalled: steps of the thread, and 30 iterations of the main loop at most, bring the
node to a window that counts every frame that had come in. -/
theorem station_progress (F : RxRing σ) (fl : Flash) {evs : List StationEvent}
    (hon : ((stationMachine F).run (start F fl) evs).recorder.life.ram.isSome)
    (hstream : ((stationMachine F).run (start F fl) evs).link.node.pc ≠ .configuring) {now : ℤ}
    (hsoon : now - ((stationMachine F).run (start F fl) evs).link.node.lastFrame < radarStallMs)
    (t : Transfer) :
    ∃ thread, (∀ e ∈ thread, e.1 = now ∧ RadarLink.ThreadStep e.2) ∧ ∃ n ≤ storePeriodS,
      ∀ later status up fates, ∃ w, ((stationMachine F).run (start F fl) (evs ++
          (threadEvents thread ++ List.replicate n (.poll t) ++
            [.flush later status up fates]))).windows =
          w :: ((stationMachine F).run (start F fl) evs).windows ∧
        w.boot = ((stationMachine F).run (start F fl) evs).boots ∧ w.link.Idle F ∧
        ∀ ps last, ((stationMachine F).run (start F fl) evs).link.Receives ps last →
          w.link.handed = ps.map Prod.snd := by
  obtain ⟨hc, hsec⟩ := Machine.run_keeps (M := stationMachine F) step_reached_sec
    ⟨start_coupled F fl, Recorder.storePeriodS_pos⟩ evs
  set s := (stationMachine F).run (start F fl) evs with hs
  obtain ⟨thread, hthread, n, hn, s', hs', hkept, hdue, hreached, hidle, hsteady⟩ :=
    next_window (F := F) hc.reached hsec hon hstream hsoon t
  refine ⟨thread, hthread, n, hn, fun later status up fates => ?_⟩
  have hrun : (stationMachine F).run (start F fl) (evs ++ (threadEvents thread ++
      List.replicate n (.poll t) ++ [.flush later status up fates])) =
        s'.step F (.flush later status up fates) := by
    rw [Machine.run_append, ← hs, Machine.run_append, ← hs']
    rfl
  have hon' : s'.recorder.life.ram.isSome := by
    rw [hkept.life]
    exact hon
  rw [hrun, flush_windows hon' hdue]
  refine ⟨_, congrArg (_ :: ·) hkept.windows, hkept.boots, hidle, fun ps last hr => ?_⟩
  exact (hreached.handed hidle.on (hr.steady hsteady)).2 hidle

/-- A record period of 30 polls, and its flush at `now` seconds. -/
def period (now : ℕ) : List StationEvent :=
  List.replicate 30 (.poll quietAir) ++ [.flush (1000 * now) quietAir (1000 * now) []]

/-- The sensor is configured in the first period, and says nothing. -/
def quietPeriod : List StationEvent :=
  [.boot [] true 0, .radar 29000 (.configured 0)] ++ period 30

/-- A frame comes in after it. -/
def heard : List StationEvent :=
  quietPeriod ++ [.radar 30001 (.isr true [.bytes ⟨bareFrame, bareFrame_length⟩])]

set_option maxRecDepth 10000 in
theorem heard_link : ((stationMachine listRing).run (start listRing flash₀) heard).link =
    (linkMachine listRing).run (.powerUp listRing) [(29000, .configured 0), (30000, .take),
      (30001, .isr true [.bytes ⟨bareFrame, bareFrame_length⟩])] := rfl

set_option maxRecDepth 10000 in
theorem heard_hears : Hears heard 30001 [.take 30000] where
  inOrder := by decide +kernel
  on := by decide +kernel
  streams := by
    rw [heard_link]
    exact fun hc => RadarPc.noConfusion hc
  soon := by
    rw [heard_link]
    decide
  receives := by
    rw [heard_link]
    exact ⟨rfl, rfl, bareFrame_gaps, empty_gap⟩
  older := by
    rw [heard_link]
    rfl
  calls := by
    rw [heard_link]
    rfl
  unseen := rfl

set_option maxRecDepth 10000 in
theorem heard_windows : ∃ f, ((stationMachine listRing).run (start listRing flash₀) heard).windows =
    [⟨1, f, (linkMachine listRing).run (.powerUp listRing) [(29000, .configured 0)]⟩] := ⟨_, rfl⟩

set_option maxRecDepth 10000 in
theorem heard_boots : ((stationMachine listRing).run (start listRing flash₀) heard).boots = 1 := rfl

theorem station_progress_heard : ∃ evs w, ((stationMachine listRing).run (start listRing flash₀)
      (heard ++ evs)).windows =
      w :: ((stationMachine listRing).run (start listRing flash₀) heard).windows ∧
    w.link.Idle listRing ∧ w.link.handed = [bareFrame] := by
  obtain ⟨thread, -, n, -, h⟩ :=
    station_progress listRing flash₀ heard_hears.on heard_hears.streams heard_hears.soon quietAir
  obtain ⟨w, hw, -, hi, hall⟩ := h 60000 quietAir 60000 []
  exact ⟨_, w, hw, hi, hall _ _ heard_hears.receives⟩

end Station

end PresenceNode
