import PresenceNode.Proof.RoundTrip
import PresenceNode.Proof.Session
import PresenceNode.Proof.Sync
import PresenceNode.Spec.App

/-!
# The app reads what it asked for

* `dumpBuffers_isDump`, `dumpBuffers_reads`: the frame of a dump reads back as consecutive records
  from the asked seq on.
* `frameOn_word`: it says its own length.
* `app_eq`: the app's state depends on the bytes of a connection only, not on the notifications.
* `delivered_bytes`: what a connection receives, as bytes.
* `app_reads`: so on every connection the app makes out the frames it asked for.
-/

namespace PresenceNode

open Session

variable {deviceId : DeviceId}

/-! ## One frame -/

theorem dumpRange_start {nextFirst : Bool} {firstSeq : UInt32} {w : World}
    (h : 0 < (dumpRange nextFirst firstSeq w).1.1.toNat) :
    firstSeq.toNat ≤ (dumpRange nextFirst firstSeq w).1.2.toNat := by
  cases nextFirst <;>
  · simp only [dumpRange, Bool.false_eq_true, if_false, if_true] at h ⊢
    rw [sntlDumpRange_start _ _ _ h]
    exact le_max_left _ _

/-- What `dump_run` sends over a link that takes it, whatever was stored when. -/
theorem dumpBuffers_isDump (deviceId : DeviceId) (firstSeq : UInt32) (d : DumpInput) {fl : Flash}
    (hk : Known fl d.node) :
    ∃ recs, IsDump fl acceptAll deviceId.chars
        (dumpRange d.nextFirst firstSeq ⟨d.node, d.sched, acceptAll, []⟩).1
        (dumpRun deviceId.chars d.mtu d.nextFirst firstSeq ⟨d.node, d.sched, acceptAll, []⟩).1
        (dumpRun deviceId.chars d.mtu d.nextFirst firstSeq ⟨d.node, d.sched, acceptAll, []⟩).2 recs ∧
      readFrame (dumpBuffers deviceId.chars firstSeq d).flatten = some (deviceId.chars, recs) := by
  obtain ⟨recs, h⟩ := dumpRun_isDump (w := ⟨d.node, d.sched, acceptAll, []⟩) hk rfl
    deviceId.chars d.mtu d.nextFirst firstSeq
  set range := (dumpRange d.nextFirst firstSeq ⟨d.node, d.sched, acceptAll, []⟩).1 with hrange
  have hcount := range.1.toNat_lt
  have hlen : recs.length ≤ 65535 := by
    rw [h.length]
    omega
  have hframe : (dumpBuffers deviceId.chars firstSeq d).flatten = wireFrame deviceId.chars recs := by
    apply h.whole
    apply h.ends acceptAll_steady
    rw [accepts_acceptAll]
    omega
  refine ⟨recs, h, ?_⟩
  rw [hframe]
  exact readFrame_wireFrame deviceId.length_le deviceId.nonzero hlen

/-- The records of a dump have consecutive seqs. -/
theorem isDump_seqs {fl : Flash} {link : List Attempt} {chars : List UInt8}
    {range : UInt16 × UInt32} {w : World} {e : DumpEnd} {recs : List SntlRecord}
    (h : IsDump fl link chars range w e recs) :
    recs.map (fun r => r.seq.toNat) = List.range' range.2.toNat recs.length := by
  have hcount := range.1.toNat_lt
  apply List.ext_getElem
  · rw [List.length_map, List.length_range']
  · intro i h1 h2
    have hi : i < recs.length := by simpa using h1
    have hseq := (h.genuine i hi).1
    have hlt := h.range_lt
    have hbound : i < range.1.toNat := by rw [← h.length]; exact hi
    rw [List.getElem_map, List.getElem_range']
    rw [List.get_eq_getElem] at hseq
    have hsmall : i < 2 ^ 32 := by omega
    rw [hseq, UInt32.toNat_add, UInt32.toNat_ofNat_of_lt' hsmall, Nat.mod_eq_of_lt (by omega),
      Nat.one_mul]

/-- **The frame of a dump reads back**: the id, and consecutive records from the asked seq or a
later one on. -/
theorem dumpBuffers_reads (deviceId : DeviceId) (c : Command) (d : DumpInput) :
    Reads deviceId c (dumpBuffers deviceId.chars c.firstSeq d).flatten := by
  have hknown : Known d.node.flash d.node := fun s r hs _ => Or.inl hs
  obtain ⟨recs, h, hread⟩ := dumpBuffers_isDump deviceId c.firstSeq d hknown
  refine ⟨recs, _, hread, isDump_seqs h, ?_⟩
  intro hne
  have hpos := List.length_pos_of_ne_nil hne
  rw [h.length] at hpos
  exact dumpRange_start hpos

/-- **It says its own length.** -/
theorem frameOn_word {s : Session} {m : ℕ} {f : Frame} (h : s.FrameOn deviceId.chars m f) :
    sntlDelimited.IsWord f.bufs.flatten := by
  obtain ⟨d, -, -, -, recs, hlen, hframe⟩ := h
  have hcount : (u16At (wireFrame deviceId.chars recs) 6).toNat = recs.length :=
    wireFrame_count (by omega)
  have hsize := wireFrame_length deviceId.chars hlen
  have hof : UInt16.ofNat recs.length = u16At (wireFrame deviceId.chars recs) 6 := by
    rw [← hcount, UInt16.ofNat_toNat]
  rw [hframe]
  refine ⟨?_, ?_⟩
  · rw [hsize, hof]
    exact (header_lt_frame _).le
  · show sntlFrameSize (u16At (wireFrame deviceId.chars recs) 6) = _
    rw [hsize, hof]

/-- It answers a command of its connection. -/
theorem frameOn_reads {s : Session} {m : ℕ} {f : Frame} (h : s.FrameOn deviceId.chars m f) :
    ∃ c ∈ s.accepted, c.conn = m ∧ Reads deviceId c f.bufs.flatten := by
  obtain ⟨d, -, ⟨-, c, hc, hm, hseq⟩, hbufs, -⟩ := h
  have hin : c ∈ s.accepted := List.mem_of_mem_take (List.mem_of_getLast? hc)
  refine ⟨c, hin, hm, ?_⟩
  rw [hbufs, ← hseq]
  exact dumpBuffers_reads deviceId c d.input

/-! ## A connection -/

/-- **The app sees the bytes**, however they are cut into notifications. -/
theorem app_eq (s : Session) (m : ℕ) : s.app m = sntlDelimited.cut (s.bytesOn m) :=
  Delimited.receive_all (s.notificationsOn m) []

theorem pieces_bufs (f : Frame) (m : ℕ) : (f.pieces m).map Piece.buf = f.bufs := by
  unfold Frame.pieces
  rw [List.map_map]
  exact List.map_id f.bufs

theorem frames_bytes (frames : List Frame) (m : ℕ) :
    ((frames.flatMap (·.pieces m)).map Piece.buf).flatten =
      (frames.map fun f => f.bufs.flatten).flatten := by
  induction frames with
  | nil => rfl
  | cons f frames ih =>
    rw [List.flatMap_cons, List.map_append, List.flatten_append, pieces_bufs, ih]
    rfl

/-- **What a connection receives**, as bytes. -/
theorem delivered_bytes {s : Session} {m : ℕ} (h : s.Delivered deviceId.chars m) :
    ∃ (frames : List Frame) (rest : List UInt8),
      s.bytesOn m = (frames.map fun f => f.bufs.flatten).flatten ++ rest ∧
      (∀ f ∈ frames, s.FrameOn deviceId.chars m f) ∧
      (rest = [] ∨ ∃ f, s.FrameOn deviceId.chars m f ∧ rest <+: f.bufs.flatten) := by
  obtain ⟨frames, tail, hpieces, hasked, htail⟩ := h
  refine ⟨frames, (tail.map Piece.buf).flatten, ?_, hasked, ?_⟩
  · unfold Session.bytesOn Session.notificationsOn
    rw [hpieces, List.map_append, List.flatten_append, frames_bytes]
  · rcases htail with rfl | ⟨f, hf, more, hmore⟩
    · exact .inl rfl
    · refine .inr ⟨f, hf, (more.map Piece.buf).flatten, ?_⟩
      rw [← List.flatten_append, ← List.map_append, hmore, pieces_bufs]

/-- Whole frames, and a rest that is none, are what the app cuts the bytes into. -/
theorem app_frames {s : Session} {m : ℕ} {frames : List Frame} {rest : List UInt8}
    (hframes : ∀ f ∈ frames, s.FrameOn deviceId.chars m f) (hrest : ¬ sntlDelimited.Has rest)
    (hbytes : s.bytesOn m = (frames.map fun f => f.bufs.flatten).flatten ++ rest) :
    s.app m = (frames.map fun f => f.bufs.flatten, rest) := by
  rw [app_eq, hbytes]
  refine Delimited.cut_words (fun frame hin => ?_) hrest
  obtain ⟨f, hf, rfl⟩ := List.mem_map.1 hin
  exact frameOn_word (hframes f hf)

/-- In each of them the app makes out what it asked for. -/
theorem app_asked {s : Session} {m : ℕ} {frames : List Frame} {rest : List UInt8}
    (hframes : ∀ f ∈ frames, s.FrameOn deviceId.chars m f)
    (happ : s.app m = (frames.map fun f => f.bufs.flatten, rest)) :
    ∀ frame ∈ (s.app m).1, ∃ c ∈ s.accepted, c.conn = m ∧ Reads deviceId c frame := by
  intro frame hin
  rw [happ] at hin
  obtain ⟨f, hf, rfl⟩ := List.mem_map.1 hin
  exact frameOn_reads (hframes f hf)

/-- What was delivered is what the app makes out. -/
theorem delivered_app {s : Session} {m : ℕ} (h : s.Delivered deviceId.chars m) :
    s.AppReads deviceId m := by
  have hall : (s.app m).1.flatten ++ (s.app m).2 = s.bytesOn m := by
    rw [app_eq]
    exact Delimited.cut_flatten _
  obtain ⟨frames, rest, hbytes, hasked, hrest⟩ := delivered_bytes h
  have hnil : ¬ sntlDelimited.Has ([] : List UInt8) := fun hh => absurd hh.1 (by decide)
  rcases hrest with rfl | ⟨f, hf, hpre⟩
  · have happ := app_frames hasked hnil hbytes
    exact ⟨app_asked hasked happ, .inl (by rw [happ]), hall⟩
  · by_cases hend : rest = f.bufs.flatten
    · -- the last frame is whole after all
      have hasked' : ∀ g ∈ frames ++ [f], s.FrameOn deviceId.chars m g := by
        intro g hg
        rcases List.mem_append.1 hg with hg | hg
        · exact hasked g hg
        · rw [List.mem_singleton.1 hg]
          exact hf
      have happ := app_frames hasked' hnil (by
        rw [hbytes, hend, List.map_append, List.flatten_append, List.append_nil]
        simp)
      exact ⟨app_asked hasked' happ, .inl (by rw [happ]), hall⟩
    · have hpart := Delimited.not_has_part (frameOn_word hf) hpre hend
      have happ := app_frames hasked hpart hbytes
      obtain ⟨c, hc, hm, hr⟩ := frameOn_reads hf
      refine ⟨app_asked hasked happ, .inr ⟨c, hc, hm, f.bufs.flatten, hr, ?_⟩, hall⟩
      rw [happ]
      exact ⟨hpre, hend⟩

/-- **From the dump to the app.** Over every calm run, on every connection, and however the frames
were cut into notifications: putting the notifications together and going by the record counts, the
app gets whole frames, each of which reads as the device's id and consecutive records from a seq it
asked for on that connection; what is left over is a part of one more. -/
theorem app_reads (deviceId : DeviceId) {evs : List SessionEvent}
    (hg : (sessionMachine deviceId.chars).Guarded Session.Calm .off evs) (m : ℕ) :
    ((sessionMachine deviceId.chars).run .off evs).AppReads deviceId m :=
  delivered_app (framed_delivered (session_sound hg).2 m)

/-- Two connections, each with a frame of its own. -/
theorem app_reads_twice :
    (((sessionMachine [0x50, 0x52]).run .off
      (join ++ ask 5 ++ answer ++ part ++ join ++ ask 7 ++ answer)).app 2).1 ≠ [] ∧
    ((sessionMachine [0x50, 0x52]).run .off
      (join ++ ask 5 ++ answer ++ part ++ join ++ ask 7 ++ answer)).AppReads
        ⟨[0x50, 0x52], by decide, by decide⟩ 2 :=
  ⟨by decide +kernel, app_reads ⟨[0x50, 0x52], by decide, by decide⟩ (by decide +kernel) 2⟩

end PresenceNode
