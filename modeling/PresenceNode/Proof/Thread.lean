import PresenceNode.Proof.Lookup
import PresenceNode.Proof.Stream
import PresenceNode.Spec.Thread

/-!
# The dwell clock and the restarts of the sensor

* `push_defined`: in every run, a byte is pushed within bounds, and what comes out is decided.
* `Moves`: how a frame or a take moves the occupancy clock, and whether it stops it.
* `Timed`: the clock is behind the last frame, so a stall leaves it ten seconds behind, and it
  stays there from the restart on until something stops it.
* `dwell_since_iff`: a dwell reaches back over the last restart exactly when nothing stopped the
  clock.
* `dwell_spans`: a silence inside one window is reported as unbroken occupancy.
-/

namespace PresenceNode

namespace RadarNode

variable {s : RadarNode} {now : ℤ}

theorem rest_ne_configuring (chunk : List UInt8) : RadarPc.rest chunk ≠ .configuring := by
  cases chunk <;> exact fun he => RadarPc.noConfusion he

theorem rest_ne_counted (chunk chunk' : List UInt8) : RadarPc.rest chunk ≠ .counted chunk' := by
  cases chunk <;> exact fun he => RadarPc.noConfusion he

/-! ## The bytes -/

/-- Outside `on_frame` the reassembler is in step with a scanner. -/
def InStep (s : RadarNode) : Prop := (∃ chunk, s.pc = .counted chunk) ∨ ∃ sc, Sim s.re sc

theorem push_inStep {b : UInt8} {chunk : List UInt8} {sc : Scan UInt8} (h : Sim s.re sc) :
    InStep (s.push b chunk now) := by
  unfold push
  rcases tlvPush_sim h b with ⟨re, hp, -, hs⟩ | ⟨re, f, hp, -, -, -⟩
  · rw [hp]
    exact .inr ⟨_, hs⟩
  · rw [hp]
    simp only
    split
    · exact .inl ⟨chunk, rfl⟩
    · exact .inr ⟨sc, h⟩

theorem step_inStep (s : RadarNode) (e : ℤ × RadarStep) (h : InStep s) : InStep (s.step e) := by
  obtain ⟨now, call⟩ := e
  have hpush : ∀ {b chunk}, s.pc = .pushing (b :: chunk) → InStep (s.push b chunk now) := by
    intro b chunk hpc
    rcases h with ⟨c, hc⟩ | ⟨sc, hs⟩
    · rw [hpc] at hc
      exact RadarPc.noConfusion hc
    · exact push_inStep hs
  show InStep { s.act now call with now := now }
  cases call with
  | configured rc =>
    simp only [act]
    split
    · split_ifs
      · exact .inr ⟨_, sim_reset s.re⟩
      · exact h
    · exact h
  | look chunk =>
    simp only [act]
    split
    · rename_i hpc
      rcases h with ⟨c, hc⟩ | hs
      · rw [hpc] at hc
        exact RadarPc.noConfusion hc
      · split_ifs
        · exact .inr hs
        · exact .inr hs
    · exact h
  | push =>
    simp only [act]
    split
    · rename_i hpc
      exact hpush hpc
    · exact h
  | resume =>
    simp only [act]
    split
    · exact .inr ⟨_, sim_reset s.re⟩
    · exact h
  | take => exact h

theorem powerUp_inStep : InStep powerUp := .inr ⟨.hunt 0, rfl, rfl, by decide⟩

/-- **Every push is defined**: within bounds, and a frame that comes out of it is decided. -/
theorem push_defined (evs : List (ℤ × RadarStep)) {b : UInt8} {chunk : List UInt8}
    (hpc : (radarMachine.run powerUp evs).pc = .pushing (b :: chunk)) :
    ∃ re ret, tlvPush (radarMachine.run powerUp evs).re b = some (re, ret) ∧
      (ret = true → ∃ d, decided re.frame = some d) := by
  rcases Machine.run_keeps (M := radarMachine) step_inStep powerUp_inStep evs with ⟨c, hc⟩ | ⟨sc, hs⟩
  · rw [hpc] at hc
    exact RadarPc.noConfusion hc
  · rcases tlvPush_sim hs b with ⟨re, hp, -, -⟩ | ⟨re, f, hp, hstep, hf, -⟩
    · exact ⟨re, false, hp, fun h => Bool.noConfusion h⟩
    · refine ⟨re, true, hp, fun _ => decided_whole ?_⟩
      rw [hf]
      exact Framing.step_frame hs.ok (by rw [hstep])

/-! ## The clock -/

/-- **How the clock moves** at uptime `now`: what stops it leaves 0; anything else starts it at
most, and leaves it alone when it runs. -/
structure Moves (clock clock' : ℤ) (stop : Bool) (now : ℤ) : Prop where
  stops : stop = true → clock' = 0
  runs : stop = false → clock ≠ 0 → clock' = clock
  starts : clock = 0 → clock' = 0 ∨ clock' = now

theorem onFrame_moves (acc : Acc) (d : Decided) (now : ℤ) :
    Moves acc.occSince (onFrame acc d now).occSince (decide (d.n = 0)) now := by
  rw [onFrame_occSince]
  refine ⟨?_, ?_, ?_⟩
  · intro hn
    have hn : d.n = 0 := of_decide_eq_true hn
    rw [if_neg (by omega)]
  · intro hn hrun
    have hn : d.n ≠ 0 := of_decide_eq_false hn
    rw [if_pos (by omega), if_neg hrun]
  · intro h0
    rw [if_pos h0]
    split_ifs
    · exact .inr rfl
    · exact .inl rfl

/-- A take never starts the clock. -/
theorem radarWindowTake_occSince (acc : Acc) (now : ℤ) :
    (radarWindowTake acc now).2.occSince = if acc.frames = 0 then 0 else acc.occSince := by
  unfold radarWindowTake
  simp only
  by_cases h0 : acc.frames = 0
  · rw [if_pos h0, h0]
    rfl
  · have hpos : acc.frames > 0 := UInt16.pos_iff_ne_zero.2 h0
    rw [if_neg h0, if_pos (decide_eq_true hpos)]

theorem take_moves (acc : Acc) (now : ℤ) :
    Moves acc.occSince (radarWindowTake acc now).2.occSince (decide (acc.frames = 0)) now := by
  rw [radarWindowTake_occSince]
  refine ⟨?_, ?_, ?_⟩
  · intro h0
    rw [if_pos (of_decide_eq_true h0)]
  · intro h0 _
    rw [if_neg (of_decide_eq_false h0)]
  · intro hc
    rw [hc]
    exact .inl (ite_self 0)

/-- A clock that runs after a move was running, or has just been started. -/
theorem Moves.run {clock clock' : ℤ} {stop : Bool} (hm : Moves clock clock' stop now)
    (hrun : clock' ≠ 0) : (clock ≠ 0 ∧ clock' = clock) ∨ clock' = now := by
  by_cases h0 : clock = 0
  · rcases hm.starts h0 with h' | h'
    · exact absurd h' hrun
    · exact .inr h'
  · cases stop with
    | true => exact absurd (hm.stops rfl) hrun
    | false => exact .inl ⟨h0, hm.runs rfl h0⟩

/-- The clock against the last restart: not before it once something has stopped the clock, and
until then a stall before it. -/
structure Since (clock : ℤ) (stopped : Bool) (t now : ℤ) : Prop where
  past : t ≤ now
  after : stopped = true → clock ≠ 0 → t ≤ clock
  before : stopped = false → clock ≠ 0 ∧ clock + radarStallMs ≤ t

theorem since_moves {clock clock' t now₀ : ℤ} {stopped stop : Bool}
    (h : Since clock stopped t now₀) (hm : Moves clock clock' stop now) (hle : now₀ ≤ now) :
    Since clock' (stopped || stop) t now := by
  have hpast := h.past
  refine ⟨by omega, ?_, ?_⟩
  · intro hstop hrun
    cases stop with
    | true => exact absurd (hm.stops rfl) hrun
    | false =>
      have hstopped : stopped = true := by simpa using hstop
      rcases hm.run hrun with ⟨h0, hsame⟩ | hnow
      · rw [hsame]
        exact h.after hstopped h0
      · omega
  · intro hnone
    obtain ⟨hstopped, hstop⟩ := Bool.or_eq_false_iff.1 hnone
    obtain ⟨hrun, hbehind⟩ := h.before hstopped
    rw [hm.runs hstop hrun]
    exact ⟨hrun, hbehind⟩

theorem since_later {clock t now₀ : ℤ} {stopped : Bool} (h : Since clock stopped t now₀)
    (hle : now₀ ≤ now) : Since clock stopped t now :=
  ⟨le_trans h.past hle, h.after, h.before⟩

/-- **The clock in a run.** -/
structure Timed (s : RadarNode) : Prop where
  past : s.acc.occSince ≠ 0 → s.acc.occSince ≤ s.now
  /-- In the inner loop, between frames. -/
  behind : ∀ chunk, s.pc = .rest chunk → s.acc.occSince ≠ 0 → s.acc.occSince ≤ s.lastFrame
  /-- After a stall. -/
  silent : s.pc = .configuring → s.streamed = true → s.acc.occSince ≠ 0 →
    s.acc.occSince + radarStallMs ≤ s.now
  since : ∀ t, s.restarted = some t → Since s.acc.occSince s.stopped t s.now

theorem powerUp_timed : Timed powerUp where
  past := fun h => absurd rfl h
  behind := fun _ _ h => absurd rfl h
  silent := fun _ _ h => absurd rfl h
  since := by intro t ht; simp [powerUp] at ht

/-! ## The steps -/

theorem later_timed (h : Timed s) (hle : s.now ≤ now) : Timed { s with now := now } where
  past := fun hrun => le_trans (h.past hrun) hle
  behind := h.behind
  silent := fun hpc hs hrun => le_trans (h.silent hpc hs hrun) hle
  since := fun t ht => since_later (h.since t ht) hle

theorem stream_timed (h : Timed s) (hpc : s.pc = .configuring) (hle : s.now ≤ now) :
    Timed { s.stream now with now := now } := by
  refine ⟨?_, ?_, ?_, ?_⟩
  · exact fun hrun => le_trans (h.past hrun) hle
  · exact fun _ _ hrun => le_trans (h.past hrun) hle
  · exact fun he => RadarPc.noConfusion he
  · intro t ht
    simp only [stream] at ht ⊢
    by_cases hs : s.streamed = true
    · rw [if_pos hs] at ht ⊢
      have ht : now = t := Option.some.inj ht
      refine ⟨by omega, ?_, ?_⟩
      · intro hstop hrun
        exact absurd (of_decide_eq_true hstop) hrun
      · intro hrun
        have hrun : s.acc.occSince ≠ 0 := of_decide_eq_false hrun
        have hsilent := h.silent hpc hs hrun
        exact ⟨hrun, by omega⟩
    · -- the first configuration follows no stall
      rw [if_neg hs] at ht ⊢
      exact since_later (h.since t ht) hle

/-- The test of the inner loop succeeds, or the sensor is found stalled. -/
theorem look_timed (h : Timed s) (hpc : s.pc = .streaming) (hle : s.now ≤ now)
    (chunk : List UInt8) :
    Timed { (if now - s.lastFrame < radarStallMs then { s with pc := .rest chunk }
      else { s with pc := .configuring }) with now := now } := by
  have hbehind := h.behind [] hpc
  have hsame := later_timed h hle
  split_ifs with hgo
  · refine ⟨hsame.past, fun _ _ => hbehind, ?_, hsame.since⟩
    exact fun he => absurd he (rest_ne_configuring chunk)
  · refine ⟨hsame.past, ?_, ?_, hsame.since⟩
    · exact fun c he => absurd he.symm (rest_ne_configuring c)
    · intro _ _ hrun
      have hlast := hbehind hrun
      show s.acc.occSince + radarStallMs ≤ now
      omega

/-- A frame is counted; until the thread goes on, nothing is said of `last_frame`. -/
theorem count_timed (h : Timed s) (hle : s.now ≤ now) (d : Decided) (re : Reasm)
    (chunk : List UInt8) :
    Timed { s.count d now with re := re, pc := .counted chunk, now := now } := by
  have hm := onFrame_moves s.acc d now
  refine ⟨?_, ?_, ?_, ?_⟩
  · intro hrun
    rcases hm.run hrun with ⟨h0, hsame⟩ | hnow
    · exact hsame.le.trans (le_trans (h.past h0) hle)
    · exact hnow.le
  · exact fun c he => absurd he.symm (rest_ne_counted c chunk)
  · exact fun he => RadarPc.noConfusion he
  · exact fun t ht => since_moves (h.since t ht) hm hle

theorem push_timed (h : Timed s) {b : UInt8} {chunk : List UInt8}
    (hpc : s.pc = .pushing (b :: chunk)) (hle : s.now ≤ now) :
    Timed { s.push b chunk now with now := now } := by
  have hsame := later_timed h hle
  unfold push
  split
  · split
    · exact count_timed h hle _ _ chunk
    · exact hsame
  · refine ⟨hsame.past, fun _ _ => h.behind (b :: chunk) hpc, ?_, hsame.since⟩
    exact fun he => absurd he (rest_ne_configuring chunk)
  · exact hsame

theorem resume_timed (h : Timed s) (hle : s.now ≤ now) (chunk : List UInt8) :
    Timed { s with pc := .rest chunk, re := tlvReset s.re, lastFrame := now, now := now } := by
  have hsame := later_timed h hle
  exact ⟨hsame.past, fun _ _ => hsame.past, fun he => absurd he (rest_ne_configuring chunk),
    hsame.since⟩

theorem take_timed (h : Timed s) (hle : s.now ≤ now) :
    Timed { s.take now with now := now } := by
  have hm := take_moves s.acc now
  have hsame : (radarWindowTake s.acc now).2.occSince ≠ 0 →
      s.acc.occSince ≠ 0 ∧ (radarWindowTake s.acc now).2.occSince = s.acc.occSince := by
    rw [radarWindowTake_occSince]
    split_ifs
    · exact fun hrun => absurd rfl hrun
    · exact fun hrun => ⟨hrun, rfl⟩
  refine ⟨?_, ?_, ?_, ?_⟩
  · intro hrun
    obtain ⟨h0, heq⟩ := hsame hrun
    exact heq.le.trans (le_trans (h.past h0) hle)
  · intro c he hrun
    obtain ⟨h0, heq⟩ := hsame hrun
    exact heq.le.trans (h.behind c he h0)
  · intro he hs hrun
    obtain ⟨h0, heq⟩ := hsame hrun
    have hsilent := h.silent he hs h0
    show (radarWindowTake s.acc now).2.occSince + radarStallMs ≤ now
    omega
  · exact fun t ht => since_moves (h.since t ht) hm hle

/-- **Every step keeps the clock so**, if the uptimes do not go back. -/
theorem step_timed (s : RadarNode) (e : ℤ × RadarStep) (h : Timed s) (hf : s.Forward e) :
    Timed (radarMachine.step s e) := by
  obtain ⟨now, call⟩ := e
  have hle : s.now ≤ now := hf
  have hsame := later_timed h hle
  show Timed { s.act now call with now := now }
  cases call with
  | configured rc =>
    simp only [act]
    split
    · rename_i hpc
      split_ifs
      · exact stream_timed h hpc hle
      · exact hsame
    · exact hsame
  | look chunk =>
    simp only [act]
    split
    · rename_i hpc
      exact look_timed h hpc hle chunk
    · exact hsame
  | push =>
    simp only [act]
    split
    · rename_i hpc
      exact push_timed h hpc hle
    · exact hsame
  | resume =>
    simp only [act]
    split
    · exact resume_timed h hle _
    · exact hsame
  | take => exact take_timed h hle

theorem run_timed {evs : List (ℤ × RadarStep)} (ht : radarMachine.Guarded Forward powerUp evs) :
    Timed (radarMachine.run powerUp evs) :=
  Machine.run_invariant step_timed powerUp_timed ht

/-! ## Dwell -/

/-- What a take reports against the last restart. -/
theorem since_dwell {acc : Acc} {stopped : Bool} {t u : ℤ} (h : Since acc.occSince stopped t u)
    (hpast : acc.occSince ≠ 0 → acc.occSince ≤ u) :
    ((radarWindowTake acc u).1.dwellS.toNat : ℤ) ≤ (u - t) / 1000 ↔
      acc.frames = 0 ∨ stopped = true ∨ 65535 ≤ (u - t) / 1000 := by
  have htu := h.past
  have hclock := radarWindowTake_occSince acc u
  by_cases hframes : acc.frames = 0
  · -- a dead window stops the clock
    rw [if_pos hframes] at hclock
    rw [take_dwell acc (fun h0 => absurd hclock h0), if_pos hclock]
    exact ⟨fun _ => .inl hframes, fun _ => by omega⟩
  · rw [if_neg hframes] at hclock
    by_cases hrun : acc.occSince = 0
    · -- the clock stands at 0, so something has stopped it
      have hstopped : stopped = true := by
        by_contra hne
        exact (h.before (by simpa using hne)).1 hrun
      rw [take_dwell acc (by omega), if_pos (by omega)]
      exact ⟨fun _ => .inr (.inl hstopped), fun _ => by omega⟩
    · have hold := hpast hrun
      rw [take_dwell acc (by omega), if_neg (by omega), hclock]
      cases stopped with
      | true =>
        have hafter := h.after rfl hrun
        exact ⟨fun _ => .inr (.inl rfl), fun _ => by omega⟩
      | false =>
        -- the clock is at least a stall older than the restart: only the bound can hide it
        have hbefore := (h.before rfl).2
        simp only [radarStallMs] at hbefore
        constructor
        · intro hle
          exact .inr (.inr (by omega))
        · rintro (h0 | hs | hbig)
          · exact absurd h0 hframes
          · exact Bool.noConfusion hs
          · omega

/-- **When a dwell does not reach back over a restart.** In every run, whatever the order of the
steps of the thread and of the takes: after a reconfiguration that followed a stall and ended at
`t`, a take at uptime `u` reports a dwell of at most `(u - t) / 1000` seconds exactly when its
window has counted no frame, or the clock has stood at 0 since `t` (it did not run at `t`, or an
empty frame or the take of a window without frames has stopped it), or the time since `t` is more
than `dwell_s` can say. -/
theorem dwell_since_iff {evs : List (ℤ × RadarStep)}
    (hf : radarMachine.Guarded Forward powerUp evs) {t u : ℤ}
    (ht : (radarMachine.run powerUp evs).restarted = some t)
    (hu : (radarMachine.run powerUp evs).now ≤ u) :
    ((radarWindowTake (radarMachine.run powerUp evs).acc u).1.dwellS.toNat : ℤ) ≤ (u - t) / 1000 ↔
      (radarMachine.run powerUp evs).acc.frames = 0 ∨
        (radarMachine.run powerUp evs).stopped = true ∨ 65535 ≤ (u - t) / 1000 := by
  have h := run_timed hf
  exact since_dwell (since_later (h.since t ht) hu) (fun hrun => le_trans (h.past hrun) hu)

/-! ## Two runs -/

/-- Steps at one uptime. -/
theorem forward_at : ∀ {evs : List (ℤ × RadarStep)} {s : RadarNode}, s.now ≤ now →
    (∀ e ∈ evs, e.1 = now) → radarMachine.Guarded Forward s evs := by
  intro evs
  induction evs with
  | nil => exact fun _ _ => trivial
  | cons e evs ih =>
    intro s hle hall
    have he : e.1 = now := hall e List.mem_cons_self
    refine ⟨hle.trans he.ge, ih (s := s.step e) he.le ?_⟩
    exact fun e' he' => hall e' (List.mem_cons_of_mem _ he')

/-- The bytes of a chunk before the last of a frame. -/
theorem run_silent {b : UInt8} (chunk : List UInt8) : ∀ (bs : List UInt8) {s : RadarNode}
    {sc : Scan UInt8}, s.pc = .rest (bs ++ b :: chunk) → s.now = now → Sim s.re sc →
      (tlvFraming.run sc bs).2 = Framing.silent bs →
      ∃ re, Sim re (tlvFraming.run sc bs).1 ∧
        radarMachine.run s (List.replicate bs.length (now, .push)) =
          { s with pc := .rest (b :: chunk), re := re } := by
  intro bs
  induction bs with
  | nil =>
    intro s sc hpc _ hs _
    refine ⟨s.re, hs, ?_⟩
    rw [← show s.pc = .rest (b :: chunk) from hpc]
    rfl
  | cons c bs ih =>
    intro s sc hpc hnow hs hsilent
    rw [Framing.run_cons] at hsilent ⊢
    obtain ⟨hnone, hrest⟩ := List.cons.inj hsilent
    rcases tlvPush_sim hs c with ⟨re, hp, -, hs'⟩ | ⟨re, f, hp, hstep, -, -⟩
    · have hpush : radarMachine.step s (now, .push) =
          { s with re := re, pc := .rest (bs ++ b :: chunk) } := by
        show { s.act now .push with now := now } = _
        simp only [act, hpc, List.cons_append, RadarPc.rest, push, hp, ← hnow]
      rw [List.length_cons, List.replicate_succ, Machine.run_cons, hpush]
      exact ih rfl hnow hs' hrest
    · rw [hstep] at hnone
      simp at hnone

/-- A whole frame is silent up to its last byte. -/
theorem frame_last {f : List UInt8} (hf : tlvFraming.IsFrame f) : ∃ bs b, f = bs ++ [b] ∧
    (tlvFraming.run (.hunt 0) bs).2 = Framing.silent bs ∧
    (tlvFraming.step (tlvFraming.run (.hunt 0) bs).1 b).2 = some f := by
  rcases List.eq_nil_or_concat f with hnil | ⟨bs, b, hcat⟩
  · have hge := hf.ge
    rw [hnil] at hge
    exact absurd hge (by decide)
  · have hrun := congrArg Prod.snd (Framing.run_frame hf 0)
    have houts : Framing.outs f = Framing.silent bs ++ [some f] := by
      unfold Framing.outs Framing.silent
      rw [show f.length - 1 = bs.length by rw [hcat]; simp]
    rw [houts] at hrun
    nth_rewrite 1 [hcat] at hrun
    rw [List.concat_eq_append, Framing.run_append] at hrun
    obtain ⟨hsilent, hlast⟩ := List.append_inj' hrun rfl
    exact ⟨bs, b, by rw [hcat, List.concat_eq_append], hsilent, List.head_eq_of_cons_eq hlast⟩

/-- A frame comes in one chunk. -/
def arrives (f : List UInt8) (now : ℤ) : List (ℤ × RadarStep) :=
  (now, .look f) :: List.replicate f.length (now, .push) ++ [(now, .resume)]

/-- **It is counted**, and the sensor is not stalled. -/
theorem run_arrives {f : List UInt8} {d : Decided} (now : ℤ) (hpc : s.pc = .streaming)
    (hs : Sim s.re (.hunt 0)) (hsoon : now - s.lastFrame < radarStallMs)
    (hf : tlvFraming.IsFrame f) (hd : decided f = some d) :
    ∃ re, Sim re (.hunt 0) ∧ radarMachine.run s (arrives f now) =
      { s.count d now with pc := .streaming, re := re, lastFrame := now, now := now } := by
  obtain ⟨bs, b, hcat, hsilent, hlast⟩ := frame_last hf
  have hlook : radarMachine.step s (now, .look f) =
      { s with pc := .rest (bs ++ [b]), now := now } := by
    show { s.act now (.look f) with now := now } = _
    simp only [act, hpc, if_pos hsoon, hcat]
  obtain ⟨re, hre, hbytes⟩ := run_silent [] bs
    (s := { s with pc := .rest (bs ++ [b]), now := now }) rfl rfl hs hsilent
  rcases tlvPush_sim hre b with ⟨re', hp, hnone, -⟩ | ⟨re', f', hp, hstep, hframe, -⟩
  · rw [hlast] at hnone
    simp at hnone
  · obtain rfl : f = f' := by
      rw [hstep] at hlast
      exact (Option.some.inj hlast).symm
    rw [← hframe] at hd
    have hlen : f.length = bs.length + 1 := by rw [hcat]; simp
    refine ⟨tlvReset re', sim_reset re', ?_⟩
    unfold arrives
    rw [hlen, List.replicate_succ', List.cons_append, List.append_assoc, Machine.run_cons, hlook,
      Machine.run_append, hbytes]
    show step (step _ (now, .push)) (now, .resume) = _
    simp only [step, act, RadarPc.rest, push, hp, hd]
    rfl

theorem arrives_forward (f : List UInt8) (h : s.now ≤ now) :
    radarMachine.Guarded Forward s (arrives f now) := by
  refine forward_at h fun e he => ?_
  simp only [arrives, List.cons_append, List.mem_cons, List.mem_append, List.mem_replicate,
    List.not_mem_nil, or_false] at he
  rcases he with rfl | ⟨-, rfl⟩ | rfl <;> rfl

/-- A stall, and the reconfiguration. -/
def stall : List (ℤ × RadarStep) := [(12000, .look []), (14000, .configured 0)]

/-- Someone is seen before a stall, and the frame `f` comes in after it. -/
def seenThen (f : List UInt8) : List (ℤ × RadarStep) :=
  [(1000, .configured 0)] ++ arrives presenceFrame 2000 ++ stall ++ arrives f 15000

/-- The node in the first stream, after its frame. -/
def first (re : Reasm) : RadarNode :=
  ⟨.streaming, re, 2000, onFrame .zero ⟨1, false, zone_le⟩ 2000, 2000, true, none, false⟩

/-- The node in the second stream, before its frame. -/
def again (re : Reasm) : RadarNode :=
  ⟨.streaming, tlvReset re, 14000, onFrame .zero ⟨1, false, zone_le⟩ 2000, 14000, true,
    some 14000, false⟩

theorem stall_run (re : Reasm) : radarMachine.run (first re) stall = again re := rfl

theorem seenThen_run {f : List UInt8} {d : Decided} (hf : tlvFraming.IsFrame f)
    (hd : decided f = some d) :
    radarMachine.Guarded Forward powerUp (seenThen f) ∧
      ∃ re re', radarMachine.run powerUp (seenThen f) =
        { (again re).count d 15000 with
          pc := .streaming, re := re', lastFrame := 15000, now := 15000 } := by
  obtain ⟨re, -, hfirst⟩ := run_arrives 2000
    (s := radarMachine.run powerUp [(1000, .configured 0)])
    rfl (sim_reset _) (by decide) presenceFrame_isFrame presenceFrame_decided
  have hsoon : (15000 : ℤ) - 14000 < radarStallMs := by decide
  obtain ⟨re', -, hsecond⟩ := run_arrives 15000 (s := again re) rfl (sim_reset _) hsoon hf hd
  have hone : radarMachine.run powerUp ([(1000, .configured 0)] ++ arrives presenceFrame 2000) =
      first re := by
    rw [Machine.run_append, hfirst]
    rfl
  have htwo : radarMachine.run powerUp
      ([(1000, .configured 0)] ++ arrives presenceFrame 2000 ++ stall) = again re := by
    rw [Machine.run_append, hone]
    exact stall_run re
  unfold seenThen
  constructor
  · rw [Machine.guarded_append, Machine.guarded_append, Machine.guarded_append, hone, htwo]
    have hstall : radarMachine.Guarded Forward (first re) stall :=
      ⟨show (2000 : ℤ) ≤ 12000 by decide, show (12000 : ℤ) ≤ 14000 by decide, trivial⟩
    exact ⟨⟨⟨by decide, arrives_forward _ (by decide)⟩, hstall⟩,
      arrives_forward _ (show (14000 : ℤ) ≤ 15000 by decide)⟩
  · exact ⟨re, re', by rw [Machine.run_append, htwo, hsecond]⟩

theorem bareFrame_decided : decided bareFrame = some ⟨0, false, by decide⟩ := by decide +kernel

/-- Someone is seen before the stall, and after it the room is empty: no dwell. -/
theorem dwell_since_left :
    ((radarWindowTake (radarMachine.run powerUp (seenThen bareFrame)).acc
        30000).1.dwellS.toNat : ℤ) ≤ (30000 - 14000) / 1000 ↔
      (radarMachine.run powerUp (seenThen bareFrame)).acc.frames = 0 ∨
        (radarMachine.run powerUp (seenThen bareFrame)).stopped = true ∨
          (65535 : ℤ) ≤ (30000 - 14000) / 1000 := by
  obtain ⟨hf, re, re', hrun⟩ := seenThen_run bareFrame_clean.toIsFrame bareFrame_decided
  have hpast : (15000 : ℤ) ≤ 30000 := by decide
  refine dwell_since_iff (t := 14000) hf ?_ ?_
  · rw [hrun]
    rfl
  · rw [hrun]
    exact hpast

/-- Someone is seen before the stall and after it, in one window. -/
def visited : List (ℤ × RadarStep) := seenThen presenceFrame

/-- What `acc` is then: one run since 2 s. -/
def visitedAcc : Acc :=
  onFrame (onFrame .zero ⟨1, false, zone_le⟩ 2000) ⟨1, false, zone_le⟩ 15000

theorem visited_run : radarMachine.Guarded Forward powerUp visited ∧
    ∃ re, radarMachine.run powerUp visited =
      ⟨.streaming, re, 15000, visitedAcc, 15000, true, some 14000, false⟩ := by
  obtain ⟨hf, re, re', hrun⟩ := seenThen_run presenceFrame_isFrame presenceFrame_decided
  exact ⟨hf, re', hrun⟩

/-- **A silence inside one window** is reported as occupancy: at 30 s the dwell is 28 s, and the
sensor was configured again at 14 s. -/
theorem dwell_spans : ¬ ∀ (evs : List (ℤ × RadarStep)) (t u : ℤ),
    radarMachine.Guarded Forward powerUp evs →
    (radarMachine.run powerUp evs).restarted = some t → (radarMachine.run powerUp evs).now ≤ u →
      ((radarWindowTake (radarMachine.run powerUp evs).acc u).1.dwellS.toNat : ℤ) ≤
        (u - t) / 1000 := by
  intro hall
  obtain ⟨hf, re, hrun⟩ := visited_run
  have hpast : (15000 : ℤ) ≤ 30000 := by decide
  have hle := hall visited 14000 30000 hf (by rw [hrun]) (by rw [hrun]; exact hpast)
  have hdwell : (radarWindowTake visitedAcc 30000).1.dwellS.toNat = 28 := by decide
  rw [hrun, hdwell] at hle
  omega

end RadarNode

end PresenceNode
