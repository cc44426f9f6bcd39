import PresenceNode.Spec.Uart

/-!
# What the radar thread sees of the UART

* `run_rx`: the interrupt and the thread are a producer and a consumer of a bounded queue.
* `step_counts`: `rx_total` and `rx_dropped` count what was offered and what was cut short.
* `uart_accounts`: in every interleaving, what the thread has read is what came in, in order and
  less the ends of the blocks that found the ring full.
-/

namespace PresenceNode

variable {σ : Type} {F : RxRing σ}

namespace Uart

/-! ## The ring -/

/-- The blocks that `uart_isr` puts into the ring. -/
def isrCalls : List UartRead → List (Fifo.Call UInt8)
  | [] => []
  | .failed :: _ => []
  | .bytes bs :: reads => if bs.1 = [] then [] else .offer bs.1 :: isrCalls reads

def callsOf : UartEvent → List (Fifo.Call UInt8)
  | .isr update reads => if update then isrCalls reads else []
  | .get n => [.fetch n]

theorem isrLoop_rx (reads : List UartRead) (u : Uart σ) :
    (u.isrLoop F reads).rx = F.machine.run u.rx (isrCalls reads) := by
  induction reads generalizing u with
  | nil => rfl
  | cons read reads ih =>
    cases read with
    | failed => rfl
    | bytes bs =>
      simp only [isrLoop, isrCalls]
      split_ifs with hnil
      · rfl
      · exact ih (u.accept F bs.1)

theorem step_rx (u : Uart σ) (e : UartEvent) :
    (u.step F e).rx = F.machine.run u.rx (callsOf e) := by
  cases e with
  | isr update reads =>
    cases update with
    | false => rfl
    | true => exact isrLoop_rx reads u
  | get n => rfl

/-- **The interrupt and the thread are a producer and a consumer** of the ring. -/
theorem run_rx (evs : List UartEvent) (u : Uart σ) :
    ((uartMachine F).run u evs).rx = F.machine.run u.rx (evs.flatMap callsOf) := by
  induction evs generalizing u with
  | nil => rfl
  | cons e evs ih =>
    rw [Machine.run_cons, ih, List.flatMap_cons, Machine.run_append, ← step_rx]
    rfl

theorem isrCalls_blocks (reads : List UartRead) (b : Fifo.Booked UInt8 σ) :
    F.machine.Guarded (Fifo.Blocks uartChunkSize) b (isrCalls reads) := by
  induction reads generalizing b with
  | nil => trivial
  | cons read reads ih =>
    cases read with
    | failed => trivial
    | bytes bs =>
      simp only [isrCalls]
      split_ifs with hnil
      · trivial
      · exact ⟨bs.2, ih _⟩

/-- No block is longer than the buffer of `uart_isr`. -/
theorem callsOf_blocks (e : UartEvent) (b : Fifo.Booked UInt8 σ) :
    F.machine.Guarded (Fifo.Blocks uartChunkSize) b (callsOf e) := by
  cases e with
  | isr update reads =>
    cases update with
    | false => trivial
    | true => exact isrCalls_blocks reads b
  | get n => exact ⟨trivial, trivial⟩

theorem run_blocks (evs : List UartEvent) (b : Fifo.Booked UInt8 σ) :
    F.machine.Guarded (Fifo.Blocks uartChunkSize) b (evs.flatMap callsOf) := by
  induction evs generalizing b with
  | nil => trivial
  | cons e evs ih =>
    rw [List.flatMap_cons, Machine.guarded_append]
    exact ⟨callsOf_blocks e b, ih _⟩

theorem backlog_isrCalls (reads : List UartRead) (b : Fifo.Booked UInt8 σ) :
    b.backlog ≤ (F.machine.run b (isrCalls reads)).backlog := by
  induction reads generalizing b with
  | nil => exact Nat.le_refl _
  | cons read reads ih =>
    cases read with
    | failed => exact Nat.le_refl _
    | bytes bs =>
      simp only [isrCalls]
      split_ifs with hnil
      · exact Nat.le_refl _
      · exact (Nat.le_add_right _ _).trans (ih (F.offer b bs.1))

/-- An interrupt that leaves no more than fits has put nothing that did not. -/
theorem isrCalls_paced (reads : List UartRead) (b : Fifo.Booked UInt8 σ)
    (h : (F.machine.run b (isrCalls reads)).backlog ≤ rxRingSize) :
    F.machine.Guarded F.Paced b (isrCalls reads) := by
  induction reads generalizing b with
  | nil => trivial
  | cons read reads ih =>
    cases read with
    | failed => trivial
    | bytes bs =>
      simp only [isrCalls] at h ⊢
      split_ifs at h ⊢ with hnil
      · trivial
      · exact ⟨(backlog_isrCalls reads (F.offer b bs.1)).trans h, ih _ h⟩

theorem run_paced {evs : List UartEvent} {u : Uart σ}
    (h : (uartMachine F).Guarded (KeepsUp F) u evs) :
    F.machine.Guarded F.Paced u.rx (evs.flatMap callsOf) := by
  induction evs generalizing u with
  | nil => trivial
  | cons e evs ih =>
    rw [List.flatMap_cons, Machine.guarded_append, ← step_rx]
    refine ⟨?_, ih h.2⟩
    have hfit : (F.machine.run u.rx (callsOf e)).backlog ≤ rxRingSize := by
      rw [← step_rx]
      exact h.1
    cases e with
    | isr update reads =>
      cases update with
      | false => trivial
      | true => exact isrCalls_paced reads u.rx hfit
    | get n => exact ⟨trivial, trivial⟩

/-! ## The counters -/

/-- `rx_total` and `rx_dropped` say what they should, modulo `2 ^ 32`. -/
def Counts (u : Uart σ) : Prop :=
  u.rxTotal = .ofNat u.rx.offered.length ∧ u.rxDropped = .ofNat u.rx.short

theorem accept_counts {u : Uart σ} (h : u.Counts) (bs : List UInt8) : (u.accept F bs).Counts := by
  obtain ⟨ht, hd⟩ := h
  constructor
  · show u.rxTotal + .ofNat bs.length = .ofNat (u.rx.offered ++ bs).length
    rw [ht, List.length_append, UInt32.ofNat_add]
  · show (if _ then u.rxDropped + 1 else u.rxDropped) = UInt32.ofNat (if _ then _ else _)
    split_ifs
    · rw [hd, UInt32.ofNat_add]
      rfl
    · exact hd

theorem step_counts (u : Uart σ) (e : UartEvent) (h : u.Counts) : (u.step F e).Counts := by
  cases e with
  | get n => exact h
  | isr update reads =>
    cases update with
    | false => exact h
    | true =>
      show (u.isrLoop F reads).Counts
      induction reads generalizing u with
      | nil => exact h
      | cons read reads ih =>
        cases read with
        | failed => exact h
        | bytes bs =>
          simp only [isrLoop]
          split_ifs with hnil
          · exact h
          · exact ih _ (accept_counts h bs.1)

/-! ## What the thread reads -/

/-- **The accounts of the UART.** -/
structure Accounts (F : RxRing σ) (u : Uart σ) : Prop where
  /-- What was read and what waits is what the ring took, in order. -/
  order : u.rx.fetched ++ F.items u.rx.queue = u.rx.kept
  /-- That is what came in, less what was dropped. -/
  sub : u.rx.kept.Sublist u.rx.offered
  total : u.rxTotal = .ofNat u.rx.offered.length
  /-- `rx_dropped` counts the puts that the ring cut short. -/
  dropped : u.rxDropped = .ofNat u.rx.short
  /-- The bytes lost are at least as many, and at most 64 times as many. -/
  lost : u.rx.kept.length + u.rx.short ≤ u.rx.offered.length
  lost_le : u.rx.offered.length ≤ u.rx.kept.length + uartChunkSize * u.rx.short
  waiting : (F.items u.rx.queue).length ≤ rxRingSize

theorem run_books (evs : List UartEvent) :
    F.Books uartChunkSize ((uartMachine F).run (powerUp F) evs).rx := by
  rw [run_rx]
  exact Fifo.run_books Fifo.booked_books (run_blocks evs _)

theorem books_accounts {u : Uart σ} (h : F.Books uartChunkSize u.rx) (hc : u.Counts) :
    u.Accounts F where
  order := h.order
  sub := h.sub
  total := hc.1
  dropped := hc.2
  lost := h.lost
  lost_le := h.lost_le
  waiting := h.fits

/-- **The ring is transparent, and says what it loses.** Whatever the interrupt and the thread do,
the bytes read are the bytes that came in, in order, each once, less those counted as dropped;
and none is dropped as long as the thread finds the ring empty often enough. -/
theorem uart_accounts (F : RxRing σ) (evs : List UartEvent) :
    ((uartMachine F).run (powerUp F) evs).Accounts F ∧
      ((uartMachine F).Guarded (KeepsUp F) (powerUp F) evs →
        ((uartMachine F).run (powerUp F) evs).rxDropped = 0 ∧
        ((uartMachine F).run (powerUp F) evs).rx.fetched ++
          F.items ((uartMachine F).run (powerUp F) evs).rx.queue =
            ((uartMachine F).run (powerUp F) evs).rx.offered) := by
  have hb := run_books (F := F) evs
  have hc := Machine.run_keeps (M := uartMachine F) step_counts
    (show (powerUp F).Counts from ⟨rfl, rfl⟩) evs
  refine ⟨books_accounts hb hc, fun hk => ?_⟩
  have hz : ((uartMachine F).run (powerUp F) evs).rx.short = 0 := by
    rw [run_rx]
    exact Fifo.run_whole Fifo.booked_books rfl (run_blocks evs _) (run_paced hk)
  exact ⟨by rw [hc.2, hz]; rfl, by rw [hb.order, hb.whole hz]⟩

end Uart

end PresenceNode
