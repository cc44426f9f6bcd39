import Mathlib.Data.List.Chain
import PresenceNode.Proof.Station

/-!
# Each frame in one window

* `Spaced`, `step_spaced`: between two windows of one boot there are frames only.
* `station_windows`: what the second of them counts is what the thread handed on in between.
-/

namespace PresenceNode

namespace Station

open RadarLink

variable {σ : Type} {F : RxRing σ}

/-! ## From one window to the next -/

/-- From a window on, in its boot, there were frames only. -/
def FramesSince (w : Window σ) (boot : ℕ) (calls : List RadarEvent) : Prop :=
  w.boot = boot → ∃ fs : List (Decided × ℤ),
    calls = fs.map (fun f => .frame f.1 f.2) ++ .take w.flush.now :: w.link.calls

/-- **Between two windows of one boot there are frames only**, and since the last one. -/
structure Spaced (s : Station σ) : Prop where
  last : ∀ w ∈ s.windows.head?, w.boot ≤ s.boots ∧ FramesSince w s.boots s.link.calls
  chain : s.windows.IsChain fun w w' => FramesSince w' w.boot w.link.calls

theorem start_spaced (F : RxRing σ) (fl : Flash) : (start F fl).Spaced where
  last _ hw := by cases hw
  chain := .nil

/-- A step of the thread adds frames. -/
theorem radar_spaced {s : Station σ} (h : s.Spaced) (now : ℤ) {e : LinkStep} (he : e ≠ .take) :
    (s.radar F (now, e)).Spaced := by
  refine ⟨?_, h.chain⟩
  intro w hw
  obtain ⟨hle, hsince⟩ := h.last w hw
  refine ⟨hle, fun hboot => ?_⟩
  obtain ⟨fs, hfs⟩ := hsince hboot
  have hcalls := RadarLink.step_calls (F := F) s.link now he
  rw [hfs] at hcalls
  have hframes : ∃ gs : List (Decided × ℤ),
      frameCalls (s.link.completes (now, e)) now = gs.map fun f => .frame f.1 f.2 := by
    unfold frameCalls
    cases (s.link.completes (now, e)).bind decided with
    | none => exact ⟨[], rfl⟩
    | some d => exact ⟨[(d, now)], rfl⟩
  obtain ⟨gs, hgs⟩ := hframes
  refine ⟨gs ++ fs, ?_⟩
  show (s.link.step F (now, e)).calls = _
  rw [hcalls, hgs, List.map_append, List.append_assoc]

theorem step_spaced (s : Station σ) (e : StationEvent) (h : s.Spaced) : (s.step F e).Spaced := by
  cases e with
  | boot fates ready cmd =>
    refine ⟨?_, h.chain⟩
    intro w hw
    have hle := (h.last w hw).1
    refine ⟨Nat.le_succ_of_le hle, fun hboot => ?_⟩
    have hnext : w.boot = s.boots + 1 := hboot
    omega
  | radar now e =>
    cases e with
    | take => exact h
    | _ =>
      simp only [step]
      split_ifs
      · exact radar_spaced h now LinkStep.noConfusion
      · exact h
  | poll t => exact ⟨h.last, h.chain⟩
  | flush now status up fates =>
    simp only [step]
    split_ifs
    · refine ⟨?_, ?_⟩
      · intro w hw
        simp only [List.head?_cons, Option.mem_def, Option.some.injEq] at hw
        rw [← hw]
        exact ⟨le_rfl, fun _ => ⟨[], rfl⟩⟩
      · exact List.isChain_cons.2 ⟨fun w hw => (h.last w hw).2, h.chain⟩
    · exact h
  | off => exact ⟨h.last, h.chain⟩

theorem sinceTake_frames (fs : List (Decided × ℤ)) (now : ℤ) (past : List RadarEvent) :
    sinceTake (fs.map (fun f => .frame f.1 f.2) ++ .take now :: past) = fs.map Prod.fst := by
  induction fs with
  | nil => rfl
  | cons f fs ih => exact congrArg (f.1 :: ·) ih

theorem meaning_frames (fs : List (Decided × ℤ)) :
    (fs.map fun f => RadarEvent.frame f.1 f.2).reverse.filterMap RadarEvent.meaning =
      (fs.map Prod.fst).reverse := by
  rw [← List.map_reverse, ← List.map_reverse, List.filterMap_map, ← List.filterMap_eq_map]
  rfl

/-- **Each frame counts in one window.** Take two windows of one boot, one after the other, with the
sensor streaming and no configuration of it in between. However the thread is interrupted, and
whatever has been lost in the ring, what the second window counts is the frames handed on between the
two takes, each once and in order; and if the clock ran on, its record tells of them. -/
theorem station_windows (F : RxRing σ) (fl : Flash) {evs : List StationEvent}
    {newer older : List (Window σ)} {w w' : Window σ}
    (hw : ((stationMachine F).run (start F fl) evs).windows = newer ++ w' :: w :: older)
    (hboot : w.boot = w'.boot) (hsame : w.link.older = w'.link.older)
    (hon : w.link.node.pc ≠ .configuring) (hon' : w'.link.node.pc ≠ .configuring) :
    (w.link.handed.map decided ++ (sinceTake (radarPast w'.flush.past)).reverse.map some =
        w'.link.handed.map decided) ∧
      (∀ ps last, w'.link.Receives ps last → w'.link.handed <+: ps.map Prod.snd ∧
        (w'.link.Idle F → w'.link.handed = ps.map Prod.snd)) ∧
      ((stationMachine F).Guarded InOrder (start F fl) evs →
        ∀ seq ts, Tells w'.flush (sntlLayout.stamp seq ts w'.flush.record)) := by
  have hc := run_coupled F fl evs
  have hspaced : ((stationMachine F).run (start F fl) evs).Spaced :=
    Machine.run_keeps (M := stationMachine F) step_spaced (start_spaced F fl) evs
  have hmem : w ∈ ((stationMachine F).run (start F fl) evs).windows := by
    rw [hw]
    simp
  have hmem' : w' ∈ ((stationMachine F).run (start F fl) evs).windows := by
    rw [hw]
    simp
  obtain ⟨-, hreached⟩ := hc.windows w hmem
  obtain ⟨hcalls', hreached'⟩ := hc.windows w' hmem'
  have hsince : FramesSince w w'.boot w'.link.calls := by
    have hchain := hspaced.chain
    rw [hw] at hchain
    exact (List.isChain_append_cons_cons.1 hchain).2.1
  obtain ⟨fs, hfs⟩ := hsince hboot
  obtain ⟨before, hbefore, hsaid⟩ := (hreached.follows hon).said
  obtain ⟨after, hafter, hsaid'⟩ := (hreached'.follows hon').said
  -- the calls since the sensor was configured, at the second take
  have hsplit : after = fs.map (fun f => .frame f.1 f.2) ++ .take w.flush.now :: before := by
    rw [hafter, hbefore, hsame, ← List.cons_append, ← List.append_assoc] at hfs
    exact List.append_cancel_right hfs
  refine ⟨?_, fun ps last hr => hreached'.handed hon' hr, fun hg => ?_⟩
  · rw [← hcalls', hfs, sinceTake_frames, ← hsaid', hsplit, List.reverse_append,
      List.filterMap_append, List.map_append, meaning_frames, List.reverse_cons,
      List.filterMap_append, List.map_append, hsaid]
    exact congrArg (· ++ _) (List.append_nil _).symm
  · have hs := (run_sound F fl hg).2
    apply hs.flushes
    rw [← hc.flushes]
    exact List.mem_map_of_mem hmem'

/-- A silent window, and one that counts a frame. -/
theorem station_windows_heard : ∃ evs w' older,
    ((stationMachine listRing).run (start listRing flash₀) evs).windows = w' :: older ∧
      (sinceTake (radarPast w'.flush.past)).reverse.map some = [decided bareFrame] ∧
      Tells w'.flush w'.flush.record := by
  obtain ⟨own, s', hs', hinOrder, hkept, hdue, hidle, hreceives, holder, d, hcalls⟩ :=
    heard_hears.next
  have hreached : Reached listRing s'.link := by
    rw [hs']
    exact (run_coupled listRing flash₀ (heard ++ own)).reached
  have hhanded : s'.link.handed = [bareFrame] := (hreached.handed hidle.on hreceives).2 hidle
  set evs := heard ++ own ++ [.flush 60000 quietAir 60000 []] with hevs
  have hrun : (stationMachine listRing).run (start listRing flash₀) evs =
      s'.step listRing (.flush 60000 quietAir 60000 []) := by
    rw [hevs, Machine.run_append, ← hs']
    rfl
  have hg : (stationMachine listRing).Guarded InOrder (start listRing flash₀) evs := by
    refine Machine.guarded_append.2 ⟨hinOrder, ?_, trivial⟩
    rw [← hs']
    show Timely (.take 60000 :: s'.link.calls)
    rw [hcalls]
    simp [Timely, RadarEvent.time, sinceTake]
  have hon : s'.recorder.life.ram.isSome := by
    rw [hkept.life]
    exact heard_hears.on
  obtain ⟨f, hf⟩ := heard_windows
  have hw : ((stationMachine listRing).run (start listRing flash₀) evs).windows =
      [⟨s'.boots, ⟨s'.recorder.air, s'.recorder.past, 60000, quietAir⟩, s'.link⟩,
        ⟨1, f, (linkMachine listRing).run (.powerUp listRing) [(29000, .configured 0)]⟩] := by
    rw [hrun, flush_windows hon hdue, hkept.windows, hf]
  obtain ⟨hcounts, -, htells⟩ := station_windows listRing flash₀
    (show _ = [] ++ _ :: _ :: [] from hw) (hkept.boots.trans heard_boots).symm holder.symm
    (fun hc => RadarPc.noConfusion hc) hidle.on
  refine ⟨evs, _, _, hw, ?_, htells hg 0 0⟩
  rw [hhanded] at hcounts
  exact hcounts

end Station

end PresenceNode
