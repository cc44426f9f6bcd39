import PresenceNode.Proof.Dump

/-!
# Does every notification fit the link?

The flush before a record makes room by emptying the buffer, but a record that is longer
than the chunk is placed all the same.

* `dumpRest_fits`: with room for a record, every buffer fits.
* `short_chunk`: without, the first record goes out in a buffer that does not.
* `chunks_fit`: which dumps fit.
-/

namespace PresenceNode

/-- A buffer of 1 to `c` bytes. -/
def Fits (c : ℕ) (buf : List UInt8) : Prop := 1 ≤ buf.length ∧ buf.length ≤ c

variable {c chunk : ℕ} {buf : List UInt8} {w : World}

theorem flush_fits (chunk need : ℕ) (hs : ∀ b ∈ w.sent, Fits c b) (hb : Fits c buf) :
    ∀ b ∈ (w.flush chunk need buf).1.sent, Fits c b := by
  rw [flush_sent]
  split_ifs
  · intro b hmem
    rcases List.mem_append.1 hmem with hmem | hmem
    · exact hs b hmem
    · rw [List.mem_singleton.1 hmem]
      exact hb
  · exact hs

/-- What is placed after a flush fits if it fits alone. -/
theorem place_fits {bytes : List UInt8} (hc : chunk ≤ c) (hpos : 1 ≤ bytes.length)
    (hle : bytes.length ≤ chunk) (hroom : buf = [] ∨ buf.length + bytes.length ≤ chunk) :
    Fits c (buf ++ bytes) := by
  unfold Fits
  rw [List.length_append]
  rcases hroom with rfl | hroom
  · rw [List.length_nil]; omega
  · omega

/-- **The loop fits** when a record fits the chunk. -/
theorem dumpLoop_fits (hbuf : chunk ≤ dumpBufSize) (hc : chunk ≤ c) (hrec : sntlRecordSize ≤ chunk)
    (seqs : List UInt32) (crc : UInt16) (hs : ∀ b ∈ w.sent, Fits c b) (hb : Fits c buf) :
    (∀ b ∈ (dumpLoop chunk seqs crc buf w).1.sent, Fits c b) ∧
      ∀ crc' buf', (dumpLoop chunk seqs crc buf w).2 = .ok (crc', buf') → Fits c buf' := by
  induction seqs generalizing crc buf w with
  | nil =>
    refine ⟨hs, ?_⟩
    intro crc' buf' h
    simp only [dumpLoop, Except.ok.injEq, Prod.mk.injEq] at h
    rw [← h.2]
    exact hb
  | cons seq seqs ih =>
    have hget : ∀ b ∈ (w.get seq).2.sent, Fits c b := by
      rw [(get_spec w seq).1.sent]
      exact hs
    have hsent := flush_fits chunk sntlRecordSize hget hb
    have hroom := (flush_spec (w.get seq).2 chunk sntlRecordSize buf).2.1
    rcases hf : (w.get seq).2.flush chunk sntlRecordSize buf with ⟨w', e | buf'⟩
    · rw [hf] at hsent
      rw [dumpLoop_stop hf]
      exact ⟨hsent, by simp⟩
    · rw [hf] at hsent hroom
      rw [dumpLoop_go hbuf hf]
      refine ih _ hsent (place_fits hc ?_ ?_ ?_)
      · rw [sntlEncodeRecord_length]; decide
      · rw [sntlEncodeRecord_length]; exact hrec
      · rw [sntlEncodeRecord_length]; exact (hroom buf' rfl).2

/-- **The end fits** when the CRC fits the chunk. -/
theorem dumpTrailer_fits (hbuf : chunk ≤ dumpBufSize) (hc : chunk ≤ c) (hcrc : sntlCrcSize ≤ chunk)
    (crc : UInt16) (hs : ∀ b ∈ w.sent, Fits c b) (hb : Fits c buf) :
    ∀ b ∈ (dumpTrailer chunk crc buf w).1.sent, Fits c b := by
  have hsent := flush_fits chunk sntlCrcSize hs hb
  have hroom := (flush_spec w chunk sntlCrcSize buf).2.1
  rw [dumpTrailer]
  rcases hf : w.flush chunk sntlCrcSize buf with ⟨w', e | buf'⟩
  · rw [hf] at hsent
    exact hsent
  · rw [hf] at hsent hroom
    have hplace : place buf' (crcBytes crc) = .ok (buf' ++ crcBytes crc) :=
      place_ok hbuf (show 2 ≤ dumpBufSize by decide) (hroom buf' rfl).2
    have hlast : Fits c (buf' ++ crcBytes crc) :=
      place_fits hc (show 1 ≤ 2 by decide) hcrc (hroom buf' rfl).2
    have hnotify := (notify_spec w' (buf' ++ crcBytes crc)).2.1
    have hall : ∀ b ∈ (w'.notify (buf' ++ crcBytes crc)).1.sent, Fits c b := by
      rw [hnotify]
      intro b hmem
      rcases List.mem_append.1 hmem with hmem | hmem
      · exact hsent b hmem
      · rw [List.mem_singleton.1 hmem]
        exact hlast
    simp only [hplace]
    rcases hn : w'.notify (buf' ++ crcBytes crc) with ⟨w₂, _ | e⟩
    · rw [hn] at hall
      exact hall
    · rw [hn] at hall
      exact hall

/-- **From the header on, everything fits** when a record does or none is to be sent. -/
theorem dumpRest_fits (hbuf : chunk ≤ dumpBufSize) (hc : chunk ≤ c) (hcrc : sntlCrcSize ≤ chunk)
    {seqs : List UInt32} (hrec : sntlRecordSize ≤ chunk ∨ seqs = []) (crc : UInt16)
    (hs : ∀ b ∈ w.sent, Fits c b) (hb : Fits c buf) :
    ∀ b ∈ (dumpRest chunk seqs crc buf w).1.sent, Fits c b := by
  rcases hrec with hrec | rfl
  · obtain ⟨hsent, hrest⟩ := dumpLoop_fits hbuf hc hrec seqs crc hs hb
    unfold dumpRest
    rcases hl : dumpLoop chunk seqs crc buf w with ⟨w', e | ⟨crc', buf'⟩⟩
    · rw [hl] at hsent
      exact hsent
    · rw [hl] at hsent hrest
      exact dumpTrailer_fits hbuf hc hcrc crc' hsent (hrest crc' buf' rfl)
  · exact dumpTrailer_fits hbuf hc hcrc crc hs hb

/-! ## A chunk shorter than a record -/

/-- The next notification is accepted, however often it comes too early. -/
def Accepted (link : List Attempt) : Prop := ∃ rc link', notifyChunk link = some (rc, link') ∧ 0 ≤ rc

theorem notify_accepted (w : World) (buf : List UInt8) :
    (w.notify buf).2 = none ↔ Accepted w.link := by
  unfold World.notify Accepted
  simp only
  cases hn : notifyChunk w.link with
  | none => simp
  | some a =>
    obtain ⟨rc, link'⟩ := a
    simp only [Option.some.injEq, Prod.mk.injEq]
    constructor
    · intro h
      refine ⟨rc, link', ⟨rfl, rfl⟩, ?_⟩
      by_contra hneg
      rw [if_pos (by omega)] at h
      simp at h
    · rintro ⟨rc', link'', ⟨rfl, rfl⟩, h⟩
      exact if_neg (by omega)

/-- A flush of a buffer that is too full. -/
theorem flush_full (hfull : buf.length + need > chunk) :
    (Accepted w.link → (w.flush chunk need buf).2 = .ok []) ∧
      (¬ Accepted w.link → ∃ e, (w.flush chunk need buf).2 = .error e) := by
  have hacc := notify_accepted w buf
  unfold World.flush
  rw [if_pos hfull]
  rcases hn : w.notify buf with ⟨w', _ | e⟩
  · rw [hn] at hacc
    exact ⟨fun _ => rfl, fun h => absurd (hacc.1 rfl) h⟩
  · rw [hn] at hacc
    refine ⟨fun h => ?_, fun _ => ⟨e, rfl⟩⟩
    have hnone := hacc.2 h
    simp at hnone

/-- A buffer without room for the CRC goes out as it is. -/
theorem dumpRest_full (hbuf : chunk ≤ dumpBufSize) (seqs : List UInt32) (crc : UInt16) (w : World)
    (hfull : buf.length + sntlCrcSize > chunk) : buf ∈ (dumpRest chunk seqs crc buf w).1.sent := by
  cases seqs with
  | nil =>
    apply (dumpTrailer_sent chunk crc buf w).subset
    rw [flush_sent, if_pos hfull]
    exact List.mem_append_right _ (List.mem_singleton_self _)
  | cons seq seqs =>
    have hsent := flush_sent (w.get seq).2 chunk sntlRecordSize buf
    rw [if_pos (lt_of_lt_of_le hfull (Nat.add_le_add_left (by decide) _))] at hsent
    have hmem : buf ∈ ((w.get seq).2.flush chunk sntlRecordSize buf).1.sent := by
      rw [hsent]
      exact List.mem_append_right _ (List.mem_singleton_self _)
    rcases hf : (w.get seq).2.flush chunk sntlRecordSize buf with ⟨w', e | buf'⟩
    · rw [hf] at hmem
      unfold dumpRest
      rw [dumpLoop_stop hf]
      exact hmem
    · rw [hf] at hmem
      have hrest := (dumpRest_sent hbuf seqs
        (sntlCrc16 crc (sntlEncodeRecord (recordOf seq (w.get seq).1)))
        (buf' ++ sntlEncodeRecord (recordOf seq (w.get seq).1)) w').subset hmem
      unfold dumpRest at hrest ⊢
      rwa [dumpLoop_go hbuf hf]

/-- **In a chunk shorter than a record** the first record goes out in one piece if the header
was accepted, and nothing but the header is sent if it was not. -/
theorem short_chunk (hshort : chunk < sntlRecordSize) (seq : UInt32) (seqs : List UInt32)
    (crc : UInt16) (buf : List UInt8) (w : World) :
    (Accepted w.link →
        ∃ b ∈ (dumpRest chunk (seq :: seqs) crc buf w).1.sent, b.length = sntlRecordSize) ∧
      (¬ Accepted w.link → (dumpRest chunk (seq :: seqs) crc buf w).1.sent = w.sent ++ [buf]) := by
  have hbuf : chunk ≤ dumpBufSize := (hshort.trans (by decide)).le
  have hlater := (get_spec w seq).1
  -- a record never fits, so the flush before it always sends
  have hfull : buf.length + sntlRecordSize > chunk := by omega
  have hsent := flush_sent (w.get seq).2 chunk sntlRecordSize buf
  obtain ⟨hyes, hno⟩ := flush_full (w := (w.get seq).2) hfull
  rw [if_pos hfull, hlater.sent] at hsent
  rw [hlater.link] at hyes hno
  rcases hf : (w.get seq).2.flush chunk sntlRecordSize buf with ⟨w', e | buf'⟩
  · rw [hf] at hyes hsent
    refine ⟨fun h => ?_, fun _ => ?_⟩
    · have hok := hyes h
      simp at hok
    · unfold dumpRest
      rw [dumpLoop_stop hf]
      exact hsent
  · rw [hf] at hyes hno
    refine ⟨fun h => ?_, fun h => ?_⟩
    · have hok := hyes h
      simp only [Except.ok.injEq] at hok
      subst hok
      refine ⟨sntlEncodeRecord (recordOf seq (w.get seq).1), ?_, sntlEncodeRecord_length _⟩
      -- the record fills the buffer past the chunk, so the next flush sends it whole
      have hrest := dumpRest_full hbuf seqs
        (sntlCrc16 crc (sntlEncodeRecord (recordOf seq (w.get seq).1)))
        w' (show (sntlEncodeRecord (recordOf seq (w.get seq).1)).length + sntlCrcSize > chunk by
          rw [sntlEncodeRecord_length]
          omega)
      unfold dumpRest at hrest ⊢
      rw [dumpLoop_go hbuf hf, List.nil_append]
      exact hrest
    · obtain ⟨e, he⟩ := hno h
      simp at he

/-! ## The dump -/

/-- The chunk for an MTU a link can have. -/
theorem dumpChunk_bounds {mtu : UInt16} (hmtu : 23 ≤ mtu.toNat) :
    dumpChunk mtu ≤ mtu.toNat - 3 ∧ 20 ≤ dumpChunk mtu ∧
      (27 ≤ mtu.toNat ↔ sntlRecordSize ≤ dumpChunk mtu) := by
  unfold dumpChunk
  simp only [dumpBufSize, sntlRecordSize]
  rw [if_pos (show mtu.toNat > 3 by omega)]
  split_ifs <;> omega

/-- **Every notification fits the link** exactly when a record does, or none is to be sent,
or the header is not even accepted. -/
theorem chunks_fit (fl : Flash) (ram : Ram) (pc : AppendPc SntlRecord)
    (sched : List (List (MainStep SntlRecord))) (link : List Attempt) (deviceId : List UInt8)
    {mtu : UInt16} (hmtu : 23 ≤ mtu.toNat) (nextFirst : Bool) (firstSeq : UInt32) :
    (∀ b ∈ (dumpRun deviceId mtu nextFirst firstSeq (.start fl ram pc sched link)).1.sent,
        1 ≤ b.length ∧ b.length ≤ mtu.toNat - 3) ↔
      27 ≤ mtu.toNat ∨ (dumpRange nextFirst firstSeq (.start fl ram pc sched link)).1.1 = 0 ∨
        ¬ Accepted link := by
  obtain ⟨hlater, hlt⟩ := dumpRange_spec nextFirst firstSeq (.start fl ram pc sched link)
  obtain ⟨hle, h20, h27⟩ := dumpChunk_bounds hmtu
  have hbuf := dumpChunk_le mtu
  rcases hr : dumpRange nextFirst firstSeq (.start fl ram pc sched link) with ⟨⟨count, start⟩, w⟩
  rw [hr] at hlater hlt
  have hrange : seqRange start (start + count.toUInt32) =
      (List.range count.toNat).map fun i => start + .ofNat i := seqRange_eq hlt
  rw [dumpRun_eq hr, hrange]
  have hnil : w.sent = [] := hlater.sent
  have hlink : w.link = link := hlater.link
  have hempty : ∀ b ∈ w.sent, Fits (mtu.toNat - 3) b := by
    rw [hnil]
    intro b hb
    simp at hb
  have hheader : Fits (mtu.toNat - 3) (sntlEncodeHeader count deviceId) := by
    unfold Fits
    rw [sntlEncodeHeader_length]
    simp only [sntlHeaderSize]
    omega
  show (∀ b ∈ _, Fits (mtu.toNat - 3) b) ↔ _ ∨ count = 0 ∨ _
  have hcrc : sntlCrcSize ≤ dumpChunk mtu := le_trans (by decide) h20
  by_cases hm : 27 ≤ mtu.toNat
  · exact ⟨fun _ => Or.inl hm, fun _ =>
      dumpRest_fits hbuf hle hcrc (Or.inl (h27.1 hm)) _ hempty hheader⟩
  by_cases hc : count = 0
  · subst hc
    exact ⟨fun _ => Or.inr (Or.inl rfl), fun _ =>
      dumpRest_fits hbuf hle hcrc (Or.inr rfl) _ hempty hheader⟩
  -- a record is due and does not fit: the header's notification decides
  have hshort : dumpChunk mtu < sntlRecordSize := by
    by_contra h
    exact hm (h27.2 (by omega))
  obtain ⟨n, hn⟩ : ∃ n, count.toNat = n + 1 := by
    refine Nat.exists_eq_succ_of_ne_zero fun h0 => hc ?_
    exact UInt16.toNat_inj.1 h0
  rw [hn, List.range_succ_eq_map, List.map_cons]
  obtain ⟨hyes, hno⟩ := short_chunk hshort (start + .ofNat 0)
    (((List.range n).map Nat.succ).map fun i => start + .ofNat i)
    (sntlCrc16 0xFFFF (sntlEncodeHeader count deviceId)) (sntlEncodeHeader count deviceId) w
  rw [hlink] at hyes hno
  by_cases hacc : Accepted link
  · constructor
    · intro h
      obtain ⟨b, hb, hlen⟩ := hyes hacc
      have hfit := (h b hb).2
      simp only [sntlRecordSize] at hlen
      omega
    · rintro (h | h | h)
      · exact absurd h hm
      · exact absurd h hc
      · exact absurd hacc h
  · refine ⟨fun _ => Or.inr (Or.inr hacc), fun _ => ?_⟩
    rw [hno hacc, hnil]
    intro b hb
    rw [List.nil_append] at hb
    rw [List.mem_singleton.1 hb]
    exact hheader

/-- A link that accepts everything. -/
def openLink : List Attempt := List.replicate 8 ⟨0, true⟩

/-- One record at the MTU the app asks for. -/
theorem chunks_fit_wide : ((dumpRun [0x41] 247 true 0
    (.start flash₁ ram₁ .idle [] openLink)).1.sent.all
      fun b => decide (1 ≤ b.length ∧ b.length ≤ 244)) = true := by
  have hfit := (chunks_fit flash₁ ram₁ .idle [] openLink [0x41]
    (show 23 ≤ (247 : UInt16).toNat by decide) true 0).2 (Or.inl (by decide))
  rw [List.all_eq_true]
  intro b hb
  exact decide_eq_true (hfit b hb)

/-- **At the smallest MTU a record does not fit**: its 24 bytes are sent where 20 may be. -/
theorem chunk_too_long :
    (dumpRun [0x41] 23 true 0 (.start flash₁ ram₁ .idle [] openLink)).1.sent.map List.length =
      [16, 24, 2] ∧
    ¬ ∀ b ∈ (dumpRun [0x41] 23 true 0 (.start flash₁ ram₁ .idle [] openLink)).1.sent,
      1 ≤ b.length ∧ b.length ≤ 23 - 3 := by
  have hlen : (dumpRun [0x41] 23 true 0 (.start flash₁ ram₁ .idle [] openLink)).1.sent.map
      List.length = [16, 24, 2] := by decide +kernel
  refine ⟨hlen, fun h => ?_⟩
  have hmem : 24 ∈ (dumpRun [0x41] 23 true 0 (.start flash₁ ram₁ .idle [] openLink)).1.sent.map
      List.length := by
    rw [hlen]
    decide
  obtain ⟨b, hb, hb24⟩ := List.mem_map.1 hmem
  have hfit := (h b hb).2
  omega

end PresenceNode
