import PresenceNode.Proof.Stream
import PresenceNode.Proof.Thread
import PresenceNode.Proof.Uart

/-!
# From the bytes of the UART to the frames and windows

* `Follows`: while it streams, the thread is in step with a scanner over the bytes it has pushed.
* `run_tallied`: the accumulators are what the calls on them made of them.
* `catches_up`: the thread is never stuck; its own steps bring it to the end of what has come in.
* `link_frames`: without a loss, the frames it hands on are those of the stream, however the
  interrupt and the chunks cut it.
* `link_windows`: and a take reports on them.
* `link_recovers`: after a loss it skips 2040 bytes at most before every frame comes out again.
-/

namespace PresenceNode

variable {σ : Type} {F : RxRing σ}

namespace RadarLink

/-! ## The bytes of the thread -/

/-- What the thread has taken out of the ring and not pushed. -/
def held : RadarPc → List UInt8
  | .pushing chunk => chunk
  | .counted chunk => chunk
  | _ => []

theorem held_rest (chunk : List UInt8) : held (.rest chunk) = chunk := by
  cases chunk <;> rfl

/-- **The thread follows the stream**: what it has pushed and holds is what it has read since the
sensor was configured, and what it has handed on is what the scanner emits over it. -/
structure Follows (l : RadarLink σ) : Prop where
  read : l.uart.rx.fetched = l.before ++ l.pushed ++ held l.node.pc
  handed : (tlvFraming.run (.hunt 0) l.pushed).2.reduceOption = l.handed
  scan : (∀ chunk, l.node.pc ≠ .counted chunk) →
    Sim l.node.re (tlvFraming.run (.hunt 0) l.pushed).1
  /-- Between `on_frame` and `tlv_reset` the scanner is ahead. -/
  ahead : ∀ chunk, l.node.pc = .counted chunk → (tlvFraming.run (.hunt 0) l.pushed).1 = .hunt 0
  said : ∃ newer, l.calls = newer ++ l.older ∧
    (newer.reverse.filterMap RadarEvent.meaning).map some = l.handed.map decided

/-- While `radar_configure` runs there is no stream. -/
def Synced (l : RadarLink σ) : Prop := l.node.pc = .configuring ∨ l.Follows

variable {l : RadarLink σ} {now : ℤ}

theorem powerUp_synced : (powerUp F).Synced := .inl rfl

theorem pushing_ne_counted {bs : List UInt8} (h : l.node.pc = .pushing bs) (chunk : List UInt8) :
    l.node.pc ≠ .counted chunk := by
  rw [h]
  exact fun hc => RadarPc.noConfusion hc

theorem streaming_ne_counted (h : l.node.pc = .streaming) (chunk : List UInt8) :
    l.node.pc ≠ .counted chunk := by
  rw [h]
  exact fun hc => RadarPc.noConfusion hc

/-- An idle thread is in its streaming loop. -/
theorem Idle.on (h : l.Idle F) : l.node.pc ≠ .configuring := by
  rw [h.1]
  exact fun hc => RadarPc.noConfusion hc

/-- A step that is not the thread's next only moves the time. -/
theorem later_synced (now : ℤ) (h : l.Synced) {node : RadarNode} (hn : node = { l.node with now := now }) :
    ({ l with node := node } : RadarLink σ).Synced := by
  rw [hn]
  rcases h with hc | hf
  · exact .inl hc
  · exact .inr ⟨hf.read, hf.handed, hf.scan, hf.ahead, hf.said⟩

theorem configured_synced (h : l.Synced) (rc : ℤ) : (l.configured now rc).Synced := by
  unfold configured
  split
  · rename_i hpc
    split_ifs with hrc
    · -- a fresh stream: nothing pushed, nothing handed on
      have hnode : l.node.step (now, .configured rc) = { l.node.stream now with now := now } := by
        simp only [RadarNode.step, RadarNode.act, hpc, if_pos hrc]
      rw [hnode]
      exact .inr ⟨by simp [held, RadarNode.stream], rfl, fun _ => sim_reset _, fun _ _ => rfl,
        [], rfl, rfl⟩
    · refine .inl ?_
      simp only [RadarNode.step, RadarNode.act, hpc, if_neg hrc]
  · rename_i hpc
    exact later_synced now h (by simp only [RadarNode.step, RadarNode.act])

theorem look_synced (h : l.Synced) : (l.look F now).Synced := by
  unfold look
  split
  · rename_i hpc
    rcases h with hc | hf
    · rw [hpc] at hc
      exact RadarPc.noConfusion hc
    · have hread := hf.read
      have hs := hf.scan (streaming_ne_counted hpc)
      rw [hpc] at hread
      split_ifs with hlate
      · have hnode : l.node.step (now, .look (l.uart.ringGet F uartChunkSize).1) =
            { l.node with pc := .rest (l.uart.ringGet F uartChunkSize).1, now := now } := by
          simp only [RadarNode.step, RadarNode.act, hpc, if_pos hlate]
        refine .inr ⟨?_, hf.handed, ?_, ?_, hf.said⟩
        · show l.uart.rx.fetched ++ (l.uart.ringGet F uartChunkSize).1 =
            l.before ++ l.pushed ++ held (l.node.step (now, .look _)).pc
          rw [hnode, held_rest, hread]
          simp only [held, List.append_nil]
        · intro _
          simp only [hnode]
          exact hs
        · intro chunk hcount
          simp only [hnode] at hcount
          exact absurd hcount (RadarNode.rest_ne_counted _ _)
      · refine .inl ?_
        simp only [RadarNode.step, RadarNode.act, hpc, if_neg hlate]
  · rename_i hpc
    exact later_synced now h (by simp only [RadarNode.step, RadarNode.act])

/-- **A byte is pushed**: the scanner reads it too, and a frame is handed on when it completes
one. -/
theorem push_synced (h : l.Synced) : (l.push now).Synced := by
  unfold push
  split
  · rename_i b chunk hpc
    rcases h with hc | hf
    · rw [hpc] at hc
      exact RadarPc.noConfusion hc
    · have hread := hf.read
      have hs := hf.scan (pushing_ne_counted hpc)
      have hrun : tlvFraming.run (.hunt 0) (l.pushed ++ [b]) =
          ((tlvFraming.step (tlvFraming.run (.hunt 0) l.pushed).1 b).1,
            (tlvFraming.run (.hunt 0) l.pushed).2 ++
              [(tlvFraming.step (tlvFraming.run (.hunt 0) l.pushed).1 b).2]) := by
        rw [Framing.run_append]
        rfl
      have hread' : l.uart.rx.fetched = l.before ++ (l.pushed ++ [b]) ++ chunk := by
        rw [hread, hpc]
        simp only [held, List.append_assoc, List.cons_append, List.nil_append]
      rcases tlvPush_sim hs b with ⟨re, hp, hnone, hs'⟩ | ⟨re, f, hp, hstep, hframe, -⟩
      · have hnode : l.node.step (now, .push) =
            { l.node with re := re, pc := .rest chunk, now := now } := by
          simp only [RadarNode.step, RadarNode.act, hpc, RadarNode.push, hp]
        rw [hnode]
        simp only
        split
        · rename_i c hcount
          exact absurd hcount (RadarNode.rest_ne_counted _ _)
        · rename_i hcount
          refine .inr ⟨?_, ?_, ?_, ?_, hf.said⟩
          · simp only [held_rest]
            exact hread'
          · simp only [hrun, hnone, List.reduceOption_append, hf.handed]
            exact List.append_nil _
          · intro _
            simp only [hrun]
            exact hs'
          · intro c hc
            exact absurd hc (hcount c)
      · have hwhole : tlvFraming.IsFrame re.frame := by
          rw [hframe]
          exact Framing.step_frame hs.ok (by rw [hstep])
        obtain ⟨d, hd⟩ := decided_whole hwhole
        have hnode : l.node.step (now, .push) =
            { l.node.count d now with re := re, pc := .counted chunk, now := now } := by
          simp only [RadarNode.step, RadarNode.act, hpc, RadarNode.push, hp, hd]
        obtain ⟨newer, hcalls, hsaid⟩ := hf.said
        rw [hnode]
        refine .inr ⟨?_, ?_, ?_, ?_, .frame d now :: newer, ?_, ?_⟩
        · simp only [held]
          exact hread'
        · simp only [hrun, hstep, List.reduceOption_append, hf.handed, hframe]
          rfl
        · intro hne
          exact absurd rfl (hne chunk)
        · intro _ _
          simp only [hrun, hstep]
        · simp only [hd, hcalls]
          rfl
        · simp only [List.reverse_cons, List.filterMap_append, List.map_append, hsaid, hd,
            List.map_cons, List.map_nil]
          rfl
  · rename_i hpc
    refine later_synced now h ?_
    simp only [RadarNode.step, RadarNode.act]

theorem resume_synced (h : l.Synced) :
    ({ l with node := l.node.step (now, .resume) } : RadarLink σ).Synced := by
  by_cases hpc : ∃ chunk, l.node.pc = .counted chunk
  · obtain ⟨chunk, hpc⟩ := hpc
    rcases h with hc | hf
    · rw [hpc] at hc
      exact RadarPc.noConfusion hc
    · have hread := hf.read
      rw [hpc] at hread
      have hnode : l.node.step (now, .resume) =
          { l.node with pc := .rest chunk, re := tlvReset l.node.re, lastFrame := now, now := now } := by
        simp only [RadarNode.step, RadarNode.act, hpc]
      rw [hnode]
      refine .inr ⟨?_, hf.handed, ?_, ?_, hf.said⟩
      · simp only [held_rest]
        exact hread
      · intro _
        simp only [hf.ahead chunk hpc]
        exact sim_reset _
      · intro c hcount
        exact absurd hcount (RadarNode.rest_ne_counted _ _)
  · refine later_synced now h ?_
    simp only [RadarNode.step, RadarNode.act]
    split
    · rename_i chunk hcount
      exact absurd ⟨chunk, hcount⟩ hpc
    · rfl

theorem take_synced (h : l.Synced) : (l.step F (now, .take)).Synced := by
  rcases h with hc | hf
  · exact .inl hc
  · obtain ⟨newer, hcalls, hsaid⟩ := hf.said
    refine .inr ⟨hf.read, hf.handed, hf.scan, hf.ahead, .take now :: newer, ?_, ?_⟩
    · show RadarEvent.take now :: l.calls = _
      rw [hcalls]
      rfl
    · rw [List.reverse_cons, List.filterMap_append, List.map_append, hsaid]
      exact List.append_nil _

theorem isrLoop_fetched (reads : List UartRead) (u : Uart σ) :
    (u.isrLoop F reads).rx.fetched = u.rx.fetched := by
  induction reads generalizing u with
  | nil => rfl
  | cons read reads ih =>
    cases read with
    | failed => rfl
    | bytes bs =>
      simp only [Uart.isrLoop]
      split_ifs with hnil
      · rfl
      · exact ih (u.accept F bs.1)

theorem uartIsr_fetched (u : Uart σ) (update : Bool) (reads : List UartRead) :
    (u.uartIsr F update reads).rx.fetched = u.rx.fetched := by
  cases update with
  | false => rfl
  | true => exact isrLoop_fetched reads u

theorem step_synced (l : RadarLink σ) (e : ℤ × LinkStep) (h : l.Synced) : (l.step F e).Synced := by
  obtain ⟨now, s⟩ := e
  cases s with
  | isr update reads =>
    rcases h with hc | hf
    · exact .inl hc
    · refine .inr ⟨?_, hf.handed, hf.scan, hf.ahead, hf.said⟩
      exact (uartIsr_fetched _ _ _).trans hf.read
  | cliGet =>
    simp only [step]
    split
    · rename_i hpc
      exact .inl hpc
    · exact h
  | configured rc => exact configured_synced h rc
  | look => exact look_synced h
  | push => exact push_synced h
  | resume => exact resume_synced h
  | take => exact take_synced h

/-- **The thread and the ring**, at any moment: the thread's reads are the ring's. -/
theorem run_synced (evs : List (ℤ × LinkStep)) : ((linkMachine F).run (powerUp F) evs).Synced :=
  Machine.run_keeps (M := linkMachine F) step_synced powerUp_synced evs

/-! ## The accumulators -/

/-- `acc` is what its calls made of it. -/
def Tallied (l : RadarLink σ) : Prop := l.node.acc = accAfter l.calls

theorem push_tallied (h : l.Tallied) : (l.push now).Tallied := by
  unfold push
  split
  · rename_i b chunk hpc
    have hsame : ∀ node : RadarNode, l.node.push b chunk now = node →
        l.node.step (now, .push) = { node with now := now } := by
      intro node hnode
      simp only [RadarNode.step, RadarNode.act, hpc, hnode]
    rcases hp : tlvPush l.node.re b with _ | ⟨re, ret⟩
    · rw [hsame l.node (by simp only [RadarNode.push, hp])]
      simp only [hpc]
      exact h
    · cases ret with
      | false =>
        rw [hsame { l.node with re := re, pc := .rest chunk } (by simp only [RadarNode.push, hp])]
        simp only
        split
        · rename_i c hcount
          exact absurd hcount (RadarNode.rest_ne_counted _ _)
        · exact h
      | true =>
        rcases hd : decided re.frame with _ | d
        · rw [hsame l.node (by simp only [RadarNode.push, hp, hd])]
          simp only [hpc]
          exact h
        · rw [hsame { l.node.count d now with re := re, pc := .counted chunk }
            (by simp only [RadarNode.push, hp, hd])]
          simp only [hd]
          exact congrArg (onFrame · d now) h
  · rename_i hpc
    simp only [RadarNode.step, RadarNode.act]
    exact h

theorem step_tallied (l : RadarLink σ) (e : ℤ × LinkStep) (h : l.Tallied) :
    (l.step F e).Tallied := by
  obtain ⟨now, s⟩ := e
  cases s with
  | isr update reads => exact h
  | cliGet =>
    simp only [step]
    split <;> exact h
  | configured rc =>
    simp only [step, configured]
    split
    · rename_i hpc
      simp only [RadarNode.step, RadarNode.act, hpc]
      split_ifs <;> exact h
    · simp only [RadarNode.step, RadarNode.act]
      exact h
  | look =>
    simp only [step, look]
    split
    · rename_i hpc
      simp only [RadarNode.step, RadarNode.act, hpc]
      split_ifs <;> exact h
    · simp only [RadarNode.step, RadarNode.act]
      exact h
  | push => exact push_tallied h
  | resume =>
    simp only [step, RadarNode.step, RadarNode.act]
    split <;> exact h
  | take => exact congrArg (fun acc => (radarWindowTake acc now).2) h

theorem powerUp_tallied : (powerUp F).Tallied := rfl

theorem run_tallied (evs : List (ℤ × LinkStep)) : ((linkMachine F).run (powerUp F) evs).Tallied :=
  Machine.run_keeps (M := linkMachine F) step_tallied powerUp_tallied evs

/-! ## The ring under the thread -/

/-- **A step is at most one event of the ring.** -/
theorem step_uart (l : RadarLink σ) (e : ℤ × LinkStep) :
    ∃ es, (l.step F e).uart = (uartMachine F).run l.uart es := by
  obtain ⟨now, s⟩ := e
  cases s with
  | isr update reads => exact ⟨[.isr update reads], rfl⟩
  | cliGet =>
    simp only [step]
    split
    · exact ⟨[.get 1], rfl⟩
    · exact ⟨[], rfl⟩
  | configured rc =>
    simp only [step, configured]
    split
    · split_ifs <;> exact ⟨[], rfl⟩
    · exact ⟨[], rfl⟩
  | look =>
    simp only [step, look]
    split
    · split_ifs
      · exact ⟨[.get uartChunkSize], rfl⟩
      · exact ⟨[], rfl⟩
    · exact ⟨[], rfl⟩
  | push =>
    simp only [step, push]
    split
    · split <;> exact ⟨[], rfl⟩
    · exact ⟨[], rfl⟩
  | resume => exact ⟨[], rfl⟩
  | take => exact ⟨[], rfl⟩

/-- **The thread drives the ring as its consumer.** -/
theorem run_uart (evs : List (ℤ × LinkStep)) (l : RadarLink σ) :
    ∃ es, ((linkMachine F).run l evs).uart = (uartMachine F).run l.uart es := by
  induction evs generalizing l with
  | nil => exact ⟨[], rfl⟩
  | cons e evs ih =>
    obtain ⟨es, hes⟩ := step_uart (F := F) l e
    obtain ⟨rest, hrest⟩ := ih (l.step F e)
    refine ⟨es ++ rest, ?_⟩
    rw [Machine.run_cons, Machine.run_append, ← hes]
    exact hrest

theorem run_link_books (evs : List (ℤ × LinkStep)) :
    F.Books uartChunkSize ((linkMachine F).run (powerUp F) evs).uart.rx := by
  obtain ⟨es, hes⟩ := run_uart (F := F) evs (powerUp F)
  rw [hes]
  exact Uart.run_books es

/-- What was pushed, is held or waits is what the ring took since the sensor was configured. -/
theorem Follows.kept (h : l.Follows) (hb : F.Books uartChunkSize l.uart.rx) :
    l.before ++ (l.pushed ++ (held l.node.pc ++ F.items l.uart.rx.queue)) = l.uart.rx.kept := by
  rw [← hb.order, h.read]
  simp only [List.append_assoc]

theorem Follows.kept_idle (h : l.Follows) (hb : F.Books uartChunkSize l.uart.rx)
    (hi : l.Idle F) : l.before ++ l.pushed = l.uart.rx.kept := by
  have hk := h.kept hb
  rw [hi.1, hi.2] at hk
  simpa only [held, List.append_nil] using hk

/-! ## Catching up -/

/-- What is left to do with what has come in. -/
def pending (F : RxRing σ) (l : RadarLink σ) : ℕ :=
  3 * (F.items l.uart.rx.queue).length +
    match l.node.pc with
    | .pushing chunk => 2 * chunk.length
    | .counted chunk => 2 * chunk.length + 1
    | _ => 0

theorem pending_rest {l' : RadarLink σ} (chunk : List UInt8) (hpc : l'.node.pc = .rest chunk) :
    pending F l' = 3 * (F.items l'.uart.rx.queue).length + 2 * chunk.length := by
  unfold pending
  rw [hpc]
  cases chunk <;> rfl

/-- A step of the thread in its streaming loop. -/
inductive ThreadStep : LinkStep → Prop where
  | look : ThreadStep .look
  | push : ThreadStep .push
  | resume : ThreadStep .resume

/-- What the thread's own steps at uptime `now` leave alone, and what they add. -/
structure Steady (now : ℤ) (l l' : RadarLink σ) : Prop where
  offered : l'.uart.rx.offered = l.uart.rx.offered
  short : l'.uart.rx.short = l.uart.rx.short
  before : l'.before = l.before
  older : l'.older = l.older
  calls : ∃ ds : List Decided, l'.calls = ds.map (RadarEvent.frame · now) ++ l.calls

theorem Steady.refl (now : ℤ) (l : RadarLink σ) : Steady now l l := ⟨rfl, rfl, rfl, rfl, [], rfl⟩

theorem Steady.trans {l₁ l₂ l₃ : RadarLink σ} (h : Steady now l₁ l₂) (h' : Steady now l₂ l₃) :
    Steady now l₁ l₃ where
  offered := h'.offered.trans h.offered
  short := h'.short.trans h.short
  before := h'.before.trans h.before
  older := h'.older.trans h.older
  calls := by
    obtain ⟨ds, hds⟩ := h.calls
    obtain ⟨ds', hds'⟩ := h'.calls
    exact ⟨ds' ++ ds, by rw [hds', hds, List.map_append, List.append_assoc]⟩

/-- In its loop, with something to push in every chunk it holds, and the sensor not stalled. -/
structure Running (now : ℤ) (l : RadarLink σ) : Prop where
  follows : l.Follows
  on : l.node.pc ≠ .configuring
  busy : l.node.pc ≠ .pushing []
  soon : now - l.node.lastFrame < radarStallMs

theorem rest_ne_empty (chunk : List UInt8) : RadarPc.rest chunk ≠ .pushing [] := by
  cases chunk <;> simp [RadarPc.rest]

/-- The end of a step that goes on with the rest of a chunk. -/
theorem running_rest {l' : RadarLink σ} {chunk : List UInt8} (h : l'.Synced)
    (hpc : l'.node.pc = .rest chunk) (hsoon : now - l'.node.lastFrame < radarStallMs) :
    Running now l' := by
  have hon : l'.node.pc ≠ .configuring := by
    rw [hpc]
    exact RadarNode.rest_ne_configuring chunk
  exact ⟨h.resolve_left hon, hon, by rw [hpc]; exact rest_ne_empty chunk, hsoon⟩

theorem look_moves (h : Running now l) (hpc : l.node.pc = .streaming)
    (hitems : F.items l.uart.rx.queue ≠ []) :
    pending F (l.step F (now, .look)) < pending F l ∧ Steady now l (l.step F (now, .look)) ∧
      Running now (l.step F (now, .look)) := by
  have hpos := List.length_pos_of_ne_nil hitems
  set chunk := (F.get l.uart.rx.queue uartChunkSize).1 with hchunk
  have hstep : l.step F (now, .look) =
      { l with
        uart := (l.uart.ringGet F uartChunkSize).2
        node := { l.node with pc := .rest chunk, now := now } } := by
    simp only [step, look, hpc, if_pos h.soon, RadarNode.step, RadarNode.act]
    rfl
  have hlen : chunk.length + (F.items (F.get l.uart.rx.queue uartChunkSize).2).length =
      (F.items l.uart.rx.queue).length := by
    rw [hchunk, F.get_out, F.get_items, ← List.length_append, List.take_append_drop]
  have hsome : 0 < chunk.length := by
    rw [hchunk, F.get_out, List.length_take]
    exact lt_min (by decide) hpos
  have hsync := step_synced (F := F) l (now, .look) (.inr h.follows)
  rw [hstep] at hsync ⊢
  refine ⟨?_, ⟨rfl, rfl, rfl, rfl, [], rfl⟩, running_rest hsync rfl h.soon⟩
  rw [pending_rest chunk rfl]
  simp only [pending, hpc, Uart.ringGet, Fifo.fetch]
  omega

theorem push_moves {b : UInt8} {chunk : List UInt8} (h : Running now l)
    (hpc : l.node.pc = .pushing (b :: chunk)) :
    pending F (l.step F (now, .push)) < pending F l ∧ Steady now l (l.step F (now, .push)) ∧
      Running now (l.step F (now, .push)) := by
  have hs := h.follows.scan (pushing_ne_counted hpc)
  have hsync := step_synced (F := F) l (now, .push) (.inr h.follows)
  rcases tlvPush_sim hs b with ⟨re, hp, -, -⟩ | ⟨re, f, hp, hemit, hframe, -⟩
  · have hnode : l.node.step (now, .push) =
        { l.node with re := re, pc := .rest chunk, now := now } := by
      simp only [RadarNode.step, RadarNode.act, hpc, RadarNode.push, hp]
    have hstep : l.step F (now, .push) =
        { l with
          node := { l.node with re := re, pc := .rest chunk, now := now }
          pushed := l.pushed ++ [b] } := by
      simp only [step, push, hpc, hnode]
      cases chunk <;> rfl
    rw [hstep] at hsync ⊢
    refine ⟨?_, ⟨rfl, rfl, rfl, rfl, [], rfl⟩, running_rest hsync rfl h.soon⟩
    rw [pending_rest chunk rfl]
    simp only [pending, hpc, List.length_cons]
    omega
  · have hwhole : tlvFraming.IsFrame re.frame := by
      rw [hframe]
      exact Framing.step_frame hs.ok (by rw [hemit])
    obtain ⟨d, hd⟩ := decided_whole hwhole
    have hnode : l.node.step (now, .push) =
        { l.node.count d now with re := re, pc := .counted chunk, now := now } := by
      simp only [RadarNode.step, RadarNode.act, hpc, RadarNode.push, hp, hd]
    have hstep : l.step F (now, .push) =
        { l with
          node := { l.node.count d now with re := re, pc := .counted chunk, now := now }
          pushed := l.pushed ++ [b]
          calls := .frame d now :: l.calls
          handed := l.handed ++ [re.frame] } := by
      simp only [step, push, hpc, hnode, hd]
      rfl
    rw [hstep] at hsync ⊢
    have hon : RadarPc.counted chunk ≠ .configuring := fun hc => RadarPc.noConfusion hc
    refine ⟨?_, ⟨rfl, rfl, rfl, rfl, [d], rfl⟩, hsync.resolve_left hon, hon, ?_, h.soon⟩
    · simp only [pending, hpc, List.length_cons]
      omega
    · exact fun hc => RadarPc.noConfusion hc

theorem resume_moves {chunk : List UInt8} (h : Running now l) (hpc : l.node.pc = .counted chunk) :
    pending F (l.step F (now, .resume)) < pending F l ∧ Steady now l (l.step F (now, .resume)) ∧
      Running now (l.step F (now, .resume)) := by
  have hstep : l.step F (now, .resume) =
      { l with
        node := { l.node with
          pc := .rest chunk, re := tlvReset l.node.re, lastFrame := now, now := now } } := by
    simp only [step, RadarNode.step, RadarNode.act, hpc]
  have hsync := step_synced (F := F) l (now, .resume) (.inr h.follows)
  have hsoon : now - now < radarStallMs := by
    rw [sub_self]
    decide
  rw [hstep] at hsync ⊢
  refine ⟨?_, ⟨rfl, rfl, rfl, rfl, [], rfl⟩, running_rest hsync rfl hsoon⟩
  rw [pending_rest chunk rfl]
  simp only [pending, hpc]
  omega

/-- **The thread is never stuck**: while something is left to do, a step of its own does some of
it. -/
theorem thread_moves (h : Running now l) (hi : ¬ l.Idle F) :
    ∃ s, ThreadStep s ∧ pending F (l.step F (now, s)) < pending F l ∧
      Steady now l (l.step F (now, s)) ∧ Running now (l.step F (now, s)) := by
  rcases hpc : l.node.pc with _ | _ | chunk | chunk
  · exact absurd hpc h.on
  · exact ⟨.look, .look, look_moves h hpc fun hnil => hi ⟨hpc, hnil⟩⟩
  · rcases chunk with _ | ⟨b, chunk⟩
    · exact absurd hpc h.busy
    · exact ⟨.push, .push, push_moves h hpc⟩
  · exact ⟨.resume, .resume, resume_moves h hpc⟩

/-- **The thread catches up** from wherever it is in its loop, by steps of its own. -/
theorem catches_up {l : RadarLink σ} (h : Running now l) :
    ∃ evs : List (ℤ × LinkStep), (∀ e ∈ evs, e.1 = now ∧ ThreadStep e.2) ∧
      Steady now l ((linkMachine F).run l evs) ∧ ((linkMachine F).run l evs).Idle F := by
  -- induction on what is left to do
  generalize hn : pending F l = n
  induction n using Nat.strong_induction_on generalizing l with
  | _ n ih =>
    by_cases hi : l.Idle F
    · exact ⟨[], fun _ h => absurd h List.not_mem_nil, .refl now l, hi⟩
    · obtain ⟨s, hs, hlt, hsteady, hrun⟩ := thread_moves h hi
      obtain ⟨evs, hevs, hsteady', hidle⟩ := ih _ (hn ▸ hlt) hrun rfl
      refine ⟨(now, s) :: evs, ?_, hsteady.trans hsteady', hidle⟩
      intro e he
      rcases List.mem_cons.1 he with rfl | he
      · exact ⟨rfl, hs⟩
      · exact hevs e he

/-- A chunk in hand is not empty. -/
theorem step_busy (l : RadarLink σ) (e : ℤ × LinkStep) (h : l.node.pc ≠ .pushing []) :
    (l.step F e).node.pc ≠ .pushing [] := by
  obtain ⟨now, s⟩ := e
  cases s with
  | isr update reads => exact h
  | cliGet =>
    simp only [step]
    split <;> exact h
  | configured rc =>
    simp only [step, configured]
    split
    · rename_i hpc
      simp only [RadarNode.step, RadarNode.act, hpc]
      split_ifs with hrc
      · exact fun hc => RadarPc.noConfusion hc
      · exact h
    · simp only [RadarNode.step, RadarNode.act]
      exact h
  | look =>
    simp only [step, look]
    split
    · rename_i hpc
      simp only [RadarNode.step, RadarNode.act, hpc]
      split_ifs with hlate
      · exact rest_ne_empty _
      · exact fun hc => RadarPc.noConfusion hc
    · simp only [RadarNode.step, RadarNode.act]
      exact h
  | push =>
    have hpush : ∀ b chunk, (l.node.push b chunk now).pc ≠ .pushing [] := by
      intro b chunk
      unfold RadarNode.push
      split
      · split
        · exact fun hc => RadarPc.noConfusion hc
        · exact h
      · exact rest_ne_empty chunk
      · exact h
    have hnode : (l.node.step (now, .push)).pc ≠ .pushing [] := by
      simp only [RadarNode.step, RadarNode.act]
      split
      · exact hpush _ _
      · exact h
    simp only [step, push]
    split
    · split <;> exact hnode
    · exact hnode
  | resume =>
    simp only [step, RadarNode.step, RadarNode.act]
    split
    · exact rest_ne_empty _
    · exact h
  | take => exact h

theorem run_running {evs : List (ℤ × LinkStep)}
    (hon : ((linkMachine F).run (powerUp F) evs).node.pc ≠ .configuring)
    (hsoon : now - ((linkMachine F).run (powerUp F) evs).node.lastFrame < radarStallMs) :
    Running now ((linkMachine F).run (powerUp F) evs) where
  follows := (run_synced evs).resolve_left hon
  on := hon
  busy := Machine.run_keeps (M := linkMachine F) step_busy
    (show (powerUp F).node.pc ≠ .pushing [] from fun hc => RadarPc.noConfusion hc) evs
  soon := hsoon

/-! ## The frames -/

/-- **What has come in**, and was unread when the sensor was configured, is frames in gaps, and the
ring has dropped nothing. -/
structure Receives (l : RadarLink σ) (ps : List (List UInt8 × List UInt8)) (last : List UInt8) :
    Prop where
  sent : l.uart.rx.offered = l.before ++ Framing.stream ps last
  whole : l.uart.rx.short = 0
  frames : ∀ p ∈ ps, tlvFraming.IsGap p.1 ∧ tlvFraming.IsFrame p.2
  tail : tlvFraming.IsGap last

variable {ps : List (List UInt8 × List UInt8)} {last : List UInt8}

theorem Receives.outs (h : l.Receives ps last) :
    (tlvFraming.run (.hunt 0) (Framing.stream ps last)).2.reduceOption = ps.map Prod.snd := by
  obtain ⟨m, -, hm⟩ := Framing.run_stream h.tail ps h.frames
  rw [hm]
  exact Framing.streamOuts_reduceOption ps last

theorem Receives.handed_prefix (h : l.Receives ps last) (hf : l.Follows)
    (hb : F.Books uartChunkSize l.uart.rx) : l.handed <+: ps.map Prod.snd := by
  have hk := hf.kept hb
  rw [hb.whole h.whole, h.sent] at hk
  rw [← h.outs, ← List.append_cancel_left hk, Framing.run_append, List.reduceOption_append,
    hf.handed]
  exact List.prefix_append _ _

theorem Receives.handed_idle (h : l.Receives ps last) (hf : l.Follows)
    (hb : F.Books uartChunkSize l.uart.rx) (hi : l.Idle F) : l.handed = ps.map Prod.snd := by
  have hk := hf.kept_idle hb hi
  rw [hb.whole h.whole, h.sent] at hk
  rw [← h.outs, ← List.append_cancel_left hk, hf.handed]

theorem Receives.steady {l' : RadarLink σ} (h : l.Receives ps last) (hs : Steady now l l') :
    l'.Receives ps last :=
  ⟨by rw [hs.offered, hs.before, h.sent], hs.short.trans h.whole, h.frames, h.tail⟩

/-- **The frames of the stream are the frames handed on**, however the interrupt and the chunks
cut it: at any moment a first part of them; all of them when the thread is through; and it gets
through by its own steps at the present uptime, unless it finds the sensor stalled. -/
theorem link_frames (F : RxRing σ) {evs : List (ℤ × LinkStep)}
    {ps : List (List UInt8 × List UInt8)} {last : List UInt8}
    (hon : ((linkMachine F).run (powerUp F) evs).node.pc ≠ .configuring)
    (hr : ((linkMachine F).run (powerUp F) evs).Receives ps last) :
    ((linkMachine F).run (powerUp F) evs).handed <+: ps.map Prod.snd ∧
      (((linkMachine F).run (powerUp F) evs).Idle F →
        ((linkMachine F).run (powerUp F) evs).handed = ps.map Prod.snd) ∧
      ∀ now, now - ((linkMachine F).run (powerUp F) evs).node.lastFrame < radarStallMs →
        ∃ evs', (∀ e ∈ evs', e.1 = now ∧ ThreadStep e.2) ∧
          ((linkMachine F).run (powerUp F) (evs ++ evs')).Idle F ∧
          ((linkMachine F).run (powerUp F) (evs ++ evs')).handed = ps.map Prod.snd := by
  have hf := (run_synced evs).resolve_left hon
  have hb := run_link_books (F := F) evs
  refine ⟨hr.handed_prefix hf hb, hr.handed_idle hf hb, fun now hsoon => ?_⟩
  obtain ⟨evs', hevs, hsteady, hi⟩ := catches_up (run_running hon hsoon)
  rw [← Machine.run_append] at hsteady hi
  exact ⟨evs', hevs, hi,
    (hr.steady hsteady).handed_idle ((run_synced _).resolve_left hi.on) (run_link_books _) hi⟩

/-- A ring that is a list. -/
abbrev listRing : RxRing (List UInt8) := Fifo.ofList UInt8 rxRingSize

theorem noise_length : [(0xAA : UInt8)].length ≤ uartChunkSize := by decide

theorem bareFrame_length : bareFrame.length ≤ uartChunkSize := by decide

theorem cut_length : (bareFrame.take 20).length ≤ uartChunkSize := by decide

theorem rest_length : (bareFrame.drop 30).length ≤ uartChunkSize := by decide

/-- The sensor is configured, and a frame comes in after a byte of noise. -/
def firstFrame : List (ℤ × LinkStep) :=
  [(1, .configured 0), (1, .isr true [.bytes ⟨[0xAA], noise_length⟩,
    .bytes ⟨bareFrame, bareFrame_length⟩])]

theorem firstFrame_receives :
    ((linkMachine listRing).run (powerUp listRing) firstFrame).Receives [([0xAA], bareFrame)] [] where
  sent := rfl
  whole := rfl
  frames := by
    intro p hp
    rw [List.mem_singleton.1 hp]
    exact ⟨.free (by unfold Framing.Free; decide), bareFrame_clean.toIsFrame⟩
  tail := .free (by unfold Framing.Free; decide)

theorem link_frames_first : ∃ evs' : List (ℤ × LinkStep),
    (∀ e ∈ evs', e.1 = 500 ∧ ThreadStep e.2) ∧
    ((linkMachine listRing).run (powerUp listRing) (firstFrame ++ evs')).Idle listRing ∧
    ((linkMachine listRing).run (powerUp listRing) (firstFrame ++ evs')).handed = [bareFrame] :=
  (link_frames listRing (fun hc => RadarPc.noConfusion hc) firstFrame_receives).2.2 500 (by decide)

/-! ## The windows -/

/-- **From the bytes to the window.** When the thread is through with a stream of whole frames, a
take reports on the calls since the last take, and the calls since the sensor was configured count
the frames of the stream, each once and in order. -/
theorem link_windows (F : RxRing σ) {evs : List (ℤ × LinkStep)}
    {ps : List (List UInt8 × List UInt8)} {last : List UInt8} {now : ℤ}
    (hi : ((linkMachine F).run (powerUp F) evs).Idle F)
    (hr : ((linkMachine F).run (powerUp F) evs).Receives ps last)
    (ht : Timely (.take now :: ((linkMachine F).run (powerUp F) evs).calls)) :
    Reports (radarWindowTake ((linkMachine F).run (powerUp F) evs).node.acc now).1
        ((linkMachine F).run (powerUp F) evs).calls now ∧
      ∃ newer, ((linkMachine F).run (powerUp F) evs).calls =
          newer ++ ((linkMachine F).run (powerUp F) evs).older ∧
        (newer.reverse.filterMap RadarEvent.meaning).map some = ps.map fun p => decided p.2 := by
  set l := (linkMachine F).run (powerUp F) evs with hl
  have hf : l.Follows := (run_synced evs).resolve_left hi.on
  have hacc : l.node.acc = accAfter l.calls := run_tallied evs
  have h := accAfter_refines (timely_sane ht.1)
  constructor
  · rw [hacc]
    exact take_reports h ht
  · obtain ⟨newer, hcalls, hsaid⟩ := hf.said
    refine ⟨newer, hcalls, ?_⟩
    rw [hsaid, hr.handed_idle hf (run_link_books evs) hi, List.map_map]
    rfl

/-- As many calls as frames handed on, when the sensor is configured once. -/
theorem Follows.counted (h : l.Follows) (holder : l.older = []) {ds : List Decided}
    {past : List RadarEvent} (hcalls : l.calls = ds.map (RadarEvent.frame · now) ++ past)
    (hpast : past.filterMap RadarEvent.meaning = []) : ds.length = l.handed.length := by
  obtain ⟨newer, hnewer, hsaid⟩ := h.said
  rw [holder, List.append_nil, hcalls] at hnewer
  have hlen := congrArg List.length hsaid
  rw [List.length_map, List.length_map, ← hnewer, List.filterMap_reverse, List.length_reverse,
    List.filterMap_append, hpast, List.append_nil, List.filterMap_map] at hlen
  have hds : ds.filterMap (RadarEvent.meaning ∘ (RadarEvent.frame · now)) = ds :=
    List.filterMap_some
  rw [hds] at hlen
  exact hlen

theorem link_windows_first : ∃ (evs : List (ℤ × LinkStep)) (newer : List RadarEvent),
    Reports (radarWindowTake ((linkMachine listRing).run (powerUp listRing) evs).node.acc 2).1
        ((linkMachine listRing).run (powerUp listRing) evs).calls 2 ∧
      (newer.reverse.filterMap RadarEvent.meaning).map some = [decided bareFrame] := by
  have hon : ((linkMachine listRing).run (powerUp listRing) firstFrame).node.pc ≠ .configuring :=
    fun hc => RadarPc.noConfusion hc
  have hsoon : 1 - ((linkMachine listRing).run (powerUp listRing) firstFrame).node.lastFrame <
      radarStallMs := by decide
  obtain ⟨evs', -, hsteady, hi⟩ := catches_up (run_running hon hsoon)
  have hr := firstFrame_receives.steady hsteady
  rw [← Machine.run_append] at hsteady hi hr
  obtain ⟨ds, hds⟩ := hsteady.calls
  have hf := (run_synced (F := listRing) (firstFrame ++ evs')).resolve_left hi.on
  -- one frame has come in, so one was counted
  have hone : ds.length = 1 := by
    rw [hf.counted hsteady.older hds rfl, hr.handed_idle hf (run_link_books _) hi]
    rfl
  obtain ⟨d, rfl⟩ := List.length_eq_one_iff.1 hone
  have ht : Timely (.take 2 :: ((linkMachine listRing).run (powerUp listRing)
      (firstFrame ++ evs')).calls) := by
    rw [hds]
    show Timely [.take 2, .frame d 1]
    simp [Timely, RadarEvent.time, sinceTake]
  obtain ⟨hw, newer, -, hn⟩ := link_windows listRing hi hr ht
  exact ⟨_, newer, hw, hn⟩

/-! ## After a loss -/

theorem step_before (l : RadarLink σ) {e : ℤ × LinkStep} (he : ∀ rc, e.2 ≠ .configured rc) :
    (l.step F e).before = l.before := by
  obtain ⟨now, s⟩ := e
  cases s with
  | configured rc => exact absurd rfl (he rc)
  | isr update reads => rfl
  | cliGet =>
    simp only [step]
    split <;> rfl
  | look =>
    simp only [step, look]
    split
    · split_ifs <;> rfl
    · rfl
  | push =>
    simp only [step, push]
    split
    · split <;> rfl
    · rfl
  | resume => rfl
  | take => rfl

theorem run_before {evs : List (ℤ × LinkStep)} (l : RadarLink σ)
    (h : ∀ e ∈ evs, ∀ rc, e.2 ≠ .configured rc) :
    ((linkMachine F).run l evs).before = l.before := by
  induction evs generalizing l with
  | nil => rfl
  | cons e evs ih =>
    rw [Machine.run_cons]
    refine (ih _ fun e' he' => h e' (List.mem_cons_of_mem _ he')).trans ?_
    exact step_before l (h e List.mem_cons_self)

/-- While the ring loses nothing, what it takes is what comes in. -/
theorem run_kept {evs : List (ℤ × LinkStep)} {l : RadarLink σ} {more : List UInt8}
    (hz : ((linkMachine F).run l evs).uart.rx.short = l.uart.rx.short)
    (hsent : ((linkMachine F).run l evs).uart.rx.offered = l.uart.rx.offered ++ more) :
    ((linkMachine F).run l evs).uart.rx.kept = l.uart.rx.kept ++ more := by
  obtain ⟨es, hes⟩ := run_uart (F := F) evs l
  have hrx : ((linkMachine F).run l evs).uart.rx =
      F.machine.run l.uart.rx (es.flatMap Uart.callsOf) := by
    rw [← Uart.run_rx, ← hes]
  rw [hrx] at hz hsent ⊢
  obtain ⟨since, ho, hk⟩ := Fifo.run_since hz
  rw [ho] at hsent
  rw [hk, List.append_cancel_left hsent]

/-- **After a loss the thread recovers.** Say the sensor streams and the ring has lost bytes. From
then on it loses none, and after what is left of a frame whole frames come in. Then what is handed
on is what `tlv_push` finds, piece by piece, in what the ring had taken by then and in what is left
of the frame; at most one stale frame; and every frame of the stream from some point on, at the
latest from the first that begins 2040 bytes in. -/
theorem link_recovers (F : RxRing σ) {evs₁ evs₂ : List (ℤ × LinkStep)} {part : List UInt8}
    {fs : List (List UInt8)}
    (hon : ((linkMachine F).run (powerUp F) evs₁).node.pc ≠ .configuring)
    (hquiet : ∀ e ∈ evs₂, ∀ rc, e.2 ≠ .configured rc)
    (hz : ((linkMachine F).run (powerUp F) (evs₁ ++ evs₂)).uart.rx.short =
      ((linkMachine F).run (powerUp F) evs₁).uart.rx.short)
    (hsent : ((linkMachine F).run (powerUp F) (evs₁ ++ evs₂)).uart.rx.offered =
      ((linkMachine F).run (powerUp F) evs₁).uart.rx.offered ++ (part ++ fs.flatten))
    (hfs : ∀ f ∈ fs, tlvFraming.IsClean f)
    (hi : ((linkMachine F).run (powerUp F) (evs₁ ++ evs₂)).Idle F) :
    ∃ taken ps last stale k,
      ((linkMachine F).run (powerUp F) evs₁).uart.rx.kept =
        ((linkMachine F).run (powerUp F) evs₁).before ++ taken ∧
      taken ++ part = Framing.stream ps last ∧ (∀ p ∈ ps, tlvFraming.IsFrame p.2) ∧
      (∃ r, feed (tlvReset .zero) (taken ++ part) = some (r, Framing.streamOuts ps last)) ∧
      ((linkMachine F).run (powerUp F) evs₁).handed <+: ps.map Prod.snd ∧
      ((linkMachine F).run (powerUp F) (evs₁ ++ evs₂)).handed =
        ps.map Prod.snd ++ stale ++ fs.drop k ∧
      stale.length ≤ 1 ∧ ∀ i < fs.length, 2040 ≤ (fs.take i).flatten.length → k ≤ i := by
  have hf₁ := (run_synced (F := F) evs₁).resolve_left hon
  have hb₁ := run_link_books (F := F) evs₁
  have hf₂ := (run_synced (F := F) (evs₁ ++ evs₂)).resolve_left hi.on
  have hb₂ := run_link_books (F := F) (evs₁ ++ evs₂)
  have hidle := hf₂.kept_idle hb₂ hi
  rw [Machine.run_append] at hz hsent hidle hf₂ hi ⊢
  set l₁ := (linkMachine F).run (powerUp F) evs₁ with hl₁
  set l₂ := (linkMachine F).run l₁ evs₂ with hl₂
  have hbefore : l₂.before = l₁.before := run_before l₁ hquiet
  have hkept : l₂.uart.rx.kept = l₁.uart.rx.kept ++ (part ++ fs.flatten) := run_kept hz hsent
  have htaken := hf₁.kept hb₁
  set taken := l₁.pushed ++ (held l₁.node.pc ++ F.items l₁.uart.rx.queue) with htk
  have hpushed : l₂.pushed = taken ++ part ++ fs.flatten := by
    rw [hkept, ← htaken, hbefore] at hidle
    refine List.append_cancel_left (hidle.trans ?_)
    simp only [List.append_assoc]
  obtain ⟨ps, last, hcut, hruns, hframes, -, -⟩ :=
    Framing.run_split (F := tlvFraming) (taken ++ part)
  have houts : (tlvFraming.run (.hunt 0) (taken ++ part)).2.reduceOption = ps.map Prod.snd := by
    rw [hruns]
    exact Framing.streamOuts_reduceOption ps last
  obtain ⟨r, hfeed, hs⟩ := feed_reset .zero (taken ++ part)
  obtain ⟨stale, k, hemit, hstale, hk⟩ := Framing.resync hs.ok hfs
  refine ⟨taken, ps, last, stale, k, htaken.symm, hcut, hframes, ⟨r, ?_⟩, ?_, ?_, hstale, hk⟩
  · rw [hfeed, hruns]
  · rw [← houts, ← hf₁.handed, htk, List.append_assoc l₁.pushed, Framing.run_append,
      List.reduceOption_append]
    exact List.prefix_append _ _
  · rw [← hf₂.handed, hpushed, Framing.run_append, List.reduceOption_append, hemit, houts]
    exact (List.append_assoc _ _ _).symm

/-- The sensor is configured, and a header comes in that is cut off. -/
def cutHeader : List (ℤ × LinkStep) :=
  [(1, .configured 0), (1, .isr true [.bytes ⟨bareFrame.take 20, cut_length⟩])]

/-- Ten bytes on, the end of that frame comes in, and two frames. -/
def twoFrames : ℤ × LinkStep :=
  (1, .isr true [.bytes ⟨bareFrame.drop 30, rest_length⟩, .bytes ⟨bareFrame, bareFrame_length⟩,
    .bytes ⟨bareFrame, bareFrame_length⟩])

theorem link_recovers_cut : ∃ (evs : List (ℤ × LinkStep)) (taken : List UInt8)
    (ps : List (List UInt8 × List UInt8)) (last : List UInt8) (stale : List (List UInt8)) (k : ℕ),
    ((linkMachine listRing).run (powerUp listRing) cutHeader).uart.rx.kept =
        ((linkMachine listRing).run (powerUp listRing) cutHeader).before ++ taken ∧
      taken ++ bareFrame.drop 30 = Framing.stream ps last ∧ (∀ p ∈ ps, tlvFraming.IsFrame p.2) ∧
      (∃ r, feed (tlvReset .zero) (taken ++ bareFrame.drop 30) =
        some (r, Framing.streamOuts ps last)) ∧
      ((linkMachine listRing).run (powerUp listRing) cutHeader).handed <+: ps.map Prod.snd ∧
      ((linkMachine listRing).run (powerUp listRing) evs).handed =
        ps.map Prod.snd ++ stale ++ [bareFrame, bareFrame].drop k ∧
      stale.length ≤ 1 ∧ ∀ i < 2, 2040 ≤ ([bareFrame, bareFrame].take i).flatten.length → k ≤ i := by
  have hon : ((linkMachine listRing).run (powerUp listRing) cutHeader).node.pc ≠ .configuring :=
    fun hc => RadarPc.noConfusion hc
  have hon' : ((linkMachine listRing).run (powerUp listRing) (cutHeader ++ [twoFrames])).node.pc ≠
      .configuring := fun hc => RadarPc.noConfusion hc
  have hsoon : 1 - ((linkMachine listRing).run (powerUp listRing)
      (cutHeader ++ [twoFrames])).node.lastFrame < radarStallMs := by decide
  obtain ⟨evs', hevs, hsteady, hi⟩ := catches_up (run_running hon' hsoon)
  rw [← Machine.run_append, List.append_assoc] at hsteady hi
  have hsent : ((linkMachine listRing).run (powerUp listRing)
      (cutHeader ++ ([twoFrames] ++ evs'))).uart.rx.offered =
      ((linkMachine listRing).run (powerUp listRing) cutHeader).uart.rx.offered ++
        (bareFrame.drop 30 ++ [bareFrame, bareFrame].flatten) := by
    rw [hsteady.offered]
    rfl
  refine ⟨_, link_recovers listRing hon ?_ ?_ hsent ?_ hi⟩
  · intro e he rc hrc
    rcases List.mem_cons.1 he with rfl | he
    · exact LinkStep.noConfusion hrc
    · have hs := (hevs e he).2
      rw [hrc] at hs
      cases hs
  · rw [hsteady.short]
    rfl
  · intro f hf
    simp only [List.mem_cons, List.not_mem_nil, or_false, or_self] at hf
    rw [hf]
    exact bareFrame_clean

end RadarLink

end PresenceNode
