import PresenceNode.Proof.Flipped
import PresenceNode.Proof.Recorder

/-!
# A noisy bus only loses readings

A word and its CRC cross the bus in 24 bits. As long as a word is garbled in no more than three bits,
in an odd number of them, or within eight consecutive ones, `read_words` takes it for what was sent
or refuses the whole transaction.

* `crc8_toBitVec`, `period_crc8`: the CRC is the general one, with a period of 127 bits.
* `wire_eq`: a garbled word that passes is the word that was sent.
* `noise_erases`: the node does what it would do on a bus that loses transactions and garbles none.
-/

namespace PresenceNode

/-- The polynomial `0x31`, without its highest term. -/
def crc8Poly : BitVec 8 := 0x31

theorem crc8Bit_toBitVec (crc : UInt8) :
    (crc8Bit crc).toBitVec = Crc.shiftStep crc8Poly crc.toBitVec := by
  have hmsb : (crc &&& 0x80 ≠ 0) ↔ crc.toBitVec.msb = true := by
    rw [Ne, ← UInt8.toBitVec_inj, UInt8.toBitVec_and]
    have htop : (0x80 : UInt8).toBitVec = BitVec.twoPow 8 7 := by decide
    rw [htop, BitVec.and_twoPow, BitVec.msb_eq_getLsbD_last]
    cases crc.toBitVec.getLsbD 7 <;> simp
  unfold crc8Bit Crc.shiftStep
  by_cases h : crc &&& 0x80 ≠ 0
  · rw [if_pos h, if_pos (hmsb.1 h)]
    rfl
  · rw [if_neg h, if_neg (fun h' => h (hmsb.2 h'))]
    rfl

theorem crc8_toBitVec (d0 d1 : UInt8) :
    (crc8 d0 d1).toBitVec = Crc.crc crc8Poly 0xFF [d0.toBitVec, d1.toBitVec] := by
  have hbit : Function.Semiconj UInt8.toBitVec crc8Bit (Crc.shiftStep crc8Poly) := crc8Bit_toBitVec
  have hfeed : ∀ x d : UInt8, (crc8Bit^[8] (x ^^^ d)).toBitVec =
      Crc.feed crc8Poly x.toBitVec d.toBitVec := by
    intro x d
    rw [(hbit.iterate_right 8).eq, UInt8.toBitVec_xor, Crc.feed]
    simp
  rw [crc8, hfeed, hfeed]
  rfl

theorem crc8Poly_odd : crc8Poly.getLsbD 0 = true := by decide

theorem crc8Poly_evenTerms : Crc.EvenTerms crc8Poly := by decide

theorem period_crc8 : Crc.period crc8Poly = 127 := by
  refine Crc.period_eq (by decide) (by decide) (List.replicate 7 true) (by decide)
    (by decide +kernel) ?_
  intro p hp hdvd
  rw [(Nat.prime_dvd_prime_iff_eq hp (by norm_num)).1 hdvd]
  exact ⟨[true], by decide, by decide +kernel⟩

/-! ## A word on the bus -/

/-- What the sensor sends for a word. -/
def wordWire (w : UInt16) : List UInt8 :=
  [(w >>> 8).toUInt8, w.toUInt8, crc8 (w >>> 8).toUInt8 w.toUInt8]

/-- What arrives for word `i`. -/
def Transfer.wire (t : Transfer) (i : ℕ) : List UInt8 :=
  [t.raw (3 * i), t.raw (3 * i + 1), t.raw (3 * i + 2)]

/-- **A word is garbled**, if at all, in few bits, in an odd number of them, or in a burst. -/
def Garbled (sent got : List UInt8) : Prop :=
  flipped sent got ≤ 3 ∨ Odd (flipped sent got) ∨ Crc.DifferWithin 8 (wireBits sent) (wireBits got)

/-- **The bus carries these words**: what arrives for each is garbled no worse than that. -/
def Transfer.Carries (t : Transfer) (sent : ℕ → UInt16) (words : ℕ) : Prop :=
  ∀ i < words, Garbled (wordWire (sent i)) (t.wire i)

/-- Two bytes and their CRC clear the register. -/
theorem wire_clear {d0 d1 c : UInt8} (h : crc8 d0 d1 = c) :
    Crc.crc crc8Poly 0xFF ([d0, d1, c].map UInt8.toBitVec) = 0 := by
  have hsplit : Crc.crc crc8Poly 0xFF ([d0, d1, c].map UInt8.toBitVec) =
      Crc.crc crc8Poly (Crc.crc crc8Poly 0xFF [d0.toBitVec, d1.toBitVec]) [c.toBitVec] := rfl
  rw [hsplit, ← crc8_toBitVec, h]
  exact Crc.crc_self (by decide) _ _ (List.append_nil _)

/-- Such errors change the register, in up to 15 bytes. -/
theorem garbled_found {a b : List UInt8} (hlen : a.length = b.length) (hshort : a.length ≤ 15)
    (hg : Garbled a b) (hne : a ≠ b) :
    Crc.crc crc8Poly 0xFF (a.map UInt8.toBitVec) ≠ Crc.crc crc8Poly 0xFF (b.map UInt8.toBitVec) := by
  have hinj : Function.Injective (List.map UInt8.toBitVec) :=
    List.map_injective_iff.2 fun _ _ => UInt8.toBitVec_inj.1
  have hlen' : (a.map UInt8.toBitVec).length = (b.map UInt8.toBitVec).length := by simpa using hlen
  have hne' : a.map UInt8.toBitVec ≠ b.map UInt8.toBitVec := fun h => hne (hinj h)
  rcases hg with hfew | hodd | hburst
  · have hpos : 0 < flipped a b := by
      refine Nat.pos_of_ne_zero fun hzero => hne' (Crc.msgBits_inj hlen' ?_)
      exact Crc.eq_of_flips (by simp [hlen]) hzero
    have hper : 8 * (a.map UInt8.toBitVec).length ≤ Crc.period crc8Poly := by
      rw [period_crc8, List.length_map]
      omega
    exact Crc.crc_ne_of_flips le_rfl crc8Poly_odd crc8Poly_evenTerms _ hlen' hpos hfew hper
  · exact Crc.crc_ne_of_odd le_rfl crc8Poly_evenTerms _ hlen' hodd
  · exact Crc.crc_ne_of_burst le_rfl crc8Poly_odd _ hlen' hne' hburst

/-- **A garbled word that passes is what was sent.** -/
theorem wire_eq {t : Transfer} {i : ℕ} {w : UInt16} (hg : Garbled (wordWire w) (t.wire i))
    (hc : t.Checked i) : t.wire i = wordWire w := by
  by_contra hne
  have hlen : (wordWire w).length = (t.wire i).length := rfl
  have hshort : (wordWire w).length ≤ 15 := Nat.le_of_ble_eq_true rfl
  exact garbled_found hlen hshort hg (Ne.symm hne) ((wire_clear rfl).trans (wire_clear hc).symm)

/-- The bytes of a word, put together again. -/
theorem join_word (w : UInt16) : ((w >>> 8).toUInt8.toUInt16 <<< 8) ||| w.toUInt8.toUInt16 = w := by
  have hw := w.toNat_lt
  apply UInt16.toNat_inj.1
  simp only [UInt16.toNat_or, UInt16.toNat_shiftLeft, UInt8.toNat_toUInt16, UInt16.toNat_toUInt8,
    UInt16.toNat_shiftRight]
  have hhigh : (w.toNat >>> 8 % 2 ^ 8) <<< 8 % 2 ^ 16 = (w.toNat / 2 ^ 8) <<< 8 := by
    rw [Nat.shiftRight_eq_div_pow, Nat.shiftLeft_eq, Nat.shiftLeft_eq]
    omega
  have h8 : UInt16.toNat 8 % 16 = 8 := rfl
  rw [h8, hhigh, Nat.lor_comm, LittleEndian.or_shift (Nat.mod_lt _ (by decide))]
  omega

theorem word_of_wire {t : Transfer} {i : ℕ} {w : UInt16} (h : t.wire i = wordWire w) :
    t.word i = w := by
  simp only [Transfer.wire, wordWire, List.cons.injEq] at h
  rw [Transfer.word, h.1, h.2.1, join_word]

/-! ## A bus that only loses -/

/-- All that was sent arrives. -/
def Transfer.whole (sent : ℕ → UInt16) : Transfer :=
  ⟨0, 0, fun k => (wordWire (sent (k / 3))).getD (k % 3) 0⟩

/-- Nothing arrives. -/
def Transfer.lost : Transfer := ⟨-eio, 0, fun _ => 0⟩

/-- **What a bus that only loses makes of a transaction.** -/
def Transfer.cleared (t : Transfer) (sent : ℕ → UInt16) (words : ℕ) : Transfer :=
  if t.Good words then .whole sent else .lost

theorem whole_wire (sent : ℕ → UInt16) (i : ℕ) : (Transfer.whole sent).wire i = wordWire (sent i) := by
  have h0 : 3 * i / 3 = i := by omega
  have h1 : (3 * i + 1) / 3 = i := by omega
  have h2 : (3 * i + 2) / 3 = i := by omega
  have r0 : 3 * i % 3 = 0 := by omega
  have r1 : (3 * i + 1) % 3 = 1 := by omega
  have r2 : (3 * i + 2) % 3 = 2 := by omega
  simp only [Transfer.wire, Transfer.whole, h0, h1, h2, r0, r1, r2]
  rfl

theorem whole_good (sent : ℕ → UInt16) (words : ℕ) : (Transfer.whole sent).Good words := by
  refine ⟨rfl, rfl, fun i _ => ?_⟩
  have hwire := whole_wire sent i
  simp only [Transfer.wire, wordWire, List.cons.injEq] at hwire
  rw [Transfer.Checked, hwire.1, hwire.2.1, hwire.2.2.1]

theorem lost_not_good (words : ℕ) : ¬ Transfer.lost.Good words := fun h => absurd h.1 (by decide)

variable {t : Transfer} {sent : ℕ → UInt16} {words : ℕ}

/-- **A transaction that passes delivers what was sent.** -/
theorem good_words (hc : t.Carries sent words) (hg : t.Good words) {i : ℕ} (hi : i < words) :
    t.word i = sent i :=
  word_of_wire (wire_eq (hc i hi) (hg.2.2 i hi))

/-- Up to the words read, `read_words` gives the same on both. -/
theorem cleared_reads (hc : t.Carries sent words) :
    (t.Good words ↔ (t.cleared sent words).Good words) ∧
      (t.Good words → ∀ i < words, (t.cleared sent words).word i = t.word i) := by
  unfold Transfer.cleared
  by_cases hg : t.Good words
  · rw [if_pos hg]
    refine ⟨iff_of_true hg (whole_good sent words), fun _ i hi => ?_⟩
    rw [good_words hc hg hi]
    exact word_of_wire (whole_wire sent i)
  · rw [if_neg hg]
    exact ⟨iff_of_false hg (lost_not_good words), fun h => absurd h hg⟩

theorem poll_cleared (s : Sen5x) (hc : t.Carries sent 8) :
    sen5xPoll s (t.cleared sent 8) = sen5xPoll s t := by
  obtain ⟨hiff, hword⟩ := cleared_reads hc
  by_cases hg : t.Good 8
  · cases hrun : s.running with
    | false => rw [sen5xPoll_stopped _ hrun, sen5xPoll_stopped _ hrun]
    | true =>
      rw [sen5xPoll_good hrun hg, sen5xPoll_good hrun (hiff.1 hg)]
      -- a fold looks at five of the eight words
      unfold Sen5xWindow.fold
      rw [hword hg 1 (by decide), hword hg 3 (by decide), hword hg 4 (by decide),
        hword hg 5 (by decide), hword hg 6 (by decide)]
  · rw [sen5xPoll_failed hg, sen5xPoll_failed (fun h => hg (hiff.2 h))]

theorem take_cleared (s : Sen5x) (hc : t.Carries sent 2) :
    sen5xWindowTake s (t.cleared sent 2) = sen5xWindowTake s t := by
  obtain ⟨hiff, hword⟩ := cleared_reads hc
  unfold sen5xWindowTake
  by_cases hg : t.Good 2
  · have hok : readWords t 2 = .ok t.word := readWords_ok_iff.2 ⟨hg, rfl⟩
    have hok' : readWords (t.cleared sent 2) 2 = .ok (t.cleared sent 2).word :=
      readWords_ok_iff.2 ⟨hiff.1 hg, rfl⟩
    have hstatus : statusOf (t.cleared sent 2).word = statusOf t.word := by
      unfold statusOf
      rw [hword hg 0 (by decide), hword hg 1 (by decide)]
    rw [hok, hok']
    simp only [hstatus]
  · have herr : ∀ t' : Transfer, ¬ t'.Good 2 → ∃ e, readWords t' 2 = .error e := by
      intro t' ht'
      cases hr : readWords t' 2 with
      | error e => exact ⟨e, rfl⟩
      | ok w => exact absurd (readWords_ok_iff.1 hr).1 ht'
    obtain ⟨e, he⟩ := herr _ hg
    obtain ⟨e', he'⟩ := herr _ fun h => hg (hiff.2 h)
    rw [he, he']

/-! ## The recorder on either bus -/

/-- **An event, and what it would be on a bus that only loses.** -/
inductive Cleared : RecorderEvent → RecorderEvent → Prop where
  | boot (fates : List Fate) (ready : Bool) (cmd : ℤ) :
    Cleared (.boot fates ready cmd) (.boot fates ready cmd)
  | frame (frame : List UInt8) (now : ℤ) : Cleared (.frame frame now) (.frame frame now)
  | poll {t : Transfer} {sent : ℕ → UInt16} (h : t.Carries sent 8) :
    Cleared (.poll t) (.poll (t.cleared sent 8))
  | flush (now : ℤ) {t : Transfer} {sent : ℕ → UInt16} (up : ℕ) (fates : List Fate)
    (h : t.Carries sent 2) : Cleared (.flush now t up fates) (.flush now (t.cleared sent 2) up fates)
  | off : Cleared .off .off

/-- **Two recorders are alike**, up to the transactions in their histories. -/
structure Alike (r r' : Recorder) : Prop where
  life : r'.life = r.life
  sensors : r'.sensors = r.sensors
  sec : r'.sec = r.sec
  due : r'.due = r.due
  air : r'.air = r.air
  past : sensorsAfter r'.air r'.past = sensorsAfter r.air r.past
  flushes : r'.flushes.map Flush.record = r.flushes.map Flush.record

theorem Alike.refl (r : Recorder) : Alike r r := ⟨rfl, rfl, rfl, rfl, rfl, rfl, rfl⟩

/-- The sensors see no difference. -/
theorem Alike.sense {r r' : Recorder} (h : Alike r r') {e e' : SensorEvent}
    (he : ∀ s : Sensors, s.step e' = s.step e) : Alike (r.sense e) (r'.sense e') where
  life := h.life
  sensors := by
    show r'.sensors.step e' = r.sensors.step e
    rw [h.sensors, he]
  sec := h.sec
  due := h.due
  air := h.air
  past := by
    show (sensorsAfter r'.air r'.past).step e' = (sensorsAfter r.air r.past).step e
    rw [h.past, he]
  flushes := h.flushes

theorem Alike.count {r r' : Recorder} (h : Alike r r') : Alike r.count r'.count := by
  unfold Recorder.count
  simp only [h.sec]
  split_ifs
  · exact ⟨h.life, h.sensors, rfl, rfl, h.air, h.past, h.flushes⟩
  · exact ⟨h.life, h.sensors, rfl, h.due, h.air, h.past, h.flushes⟩

theorem flush_cleared (s : Sensors) (now : ℤ) (hc : t.Carries sent 2) :
    windowFlush s now (t.cleared sent 2) = windowFlush s now t := by
  unfold windowFlush
  rw [take_cleared s.air hc]

theorem step_alike {r r' : Recorder} {e e' : RecorderEvent} (h : Alike r r') (he : Cleared e e') :
    Alike (r.step e) (r'.step e') := by
  cases he with
  | boot fates ready cmd =>
    simp only [Recorder.step, h.life]
    exact ⟨rfl, rfl, rfl, rfl, rfl, rfl, h.flushes⟩
  | frame frame now =>
    simp only [Recorder.step, h.life]
    split_ifs
    · exact h.sense fun _ => rfl
    · exact h
  | poll hc =>
    simp only [Recorder.step, h.life, h.due]
    split_ifs
    · refine (h.sense fun s => ?_).count
      simp only [Sensors.step, poll_cleared s.air hc]
    · exact h
  | @flush now t sent up fates hc =>
    simp only [Recorder.step, h.life, h.due, h.sensors, flush_cleared _ _ hc]
    split_ifs
    · refine ⟨rfl, rfl, h.sec, rfl, h.air, ?_, ?_⟩
      · show (sensorsAfter r'.air r'.past).step _ = (sensorsAfter r.air r.past).step _
        simp only [h.past, Sensors.step, flush_cleared _ _ hc]
      · simp only [List.map_cons, h.flushes, Flush.record, h.past, flush_cleared _ _ hc]
    · exact h
  | off =>
    simp only [Recorder.step, h.life]
    exact ⟨rfl, h.sensors, h.sec, h.due, h.air, h.past, h.flushes⟩

/-- **Noise only loses readings.** On a bus that carries each word garbled no worse than in three
bits, in an odd number of them or in a burst of eight, the node does, over every run, what it would
do on a bus that loses the transactions that do not pass and garbles none: the same records are
flushed, and the store and the windows are the same. -/
theorem noise_erases (fl : Flash) {evs evs' : List RecorderEvent} (h : List.Forall₂ Cleared evs evs') :
    (recorderMachine.run (.start fl) evs').life = (recorderMachine.run (.start fl) evs).life ∧
      (recorderMachine.run (.start fl) evs').sensors =
        (recorderMachine.run (.start fl) evs).sensors ∧
      (recorderMachine.run (.start fl) evs').sec = (recorderMachine.run (.start fl) evs).sec ∧
      (recorderMachine.run (.start fl) evs').flushes.map Flush.record =
        (recorderMachine.run (.start fl) evs).flushes.map Flush.record := by
  have hrun : Alike (recorderMachine.run (.start fl) evs) (recorderMachine.run (.start fl) evs') :=
    Machine.run_relates (fun _ _ _ _ => step_alike) (Alike.refl _) h
  exact ⟨hrun.life, hrun.sensors, hrun.sec, hrun.flushes⟩

/-- Eight words, of which the second comes with one bit flipped. -/
def oneBit : Transfer :=
  ⟨0, 0, fun k => if k = 4 then 0x2D else (Transfer.whole fun _ => 300).raw k⟩

theorem oneBit_carries : oneBit.Carries (fun _ => 300) 8 := by
  have hfew : ∀ i < 8, flipped (wordWire 300) (oneBit.wire i) ≤ 3 := by decide +kernel
  exact fun i hi => Or.inl (hfew i hi)

theorem noise_erases_oneBit :
    (recorderMachine.run (.start flash₀)
      [.boot [] true 0, .poll (oneBit.cleared (fun _ => 300) 8)]).sensors =
        (recorderMachine.run (.start flash₀) [.boot [] true 0, .poll oneBit]).sensors :=
  (noise_erases flash₀ (.cons (.boot [] true 0) (.cons (.poll oneBit_carries) .nil))).2.1

end PresenceNode
