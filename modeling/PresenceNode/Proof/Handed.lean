import PresenceNode.Spec.Session
import PresenceNode.Proof.Dump

/-!
# What a dump hands over

* `dumpBuffers_frame`: the buffers of a dump make up one frame, and there are some.
* `flush_over`, `dumpLoop_over`, `dumpRest_over`: a part of a dump over a link that goes on
  is handed what it is handed over any link.
* `dumpRun_prefix`: so the buffers passed to `notify_chunk` are the first of `dumpBuffers`,
  and an answer of the link only decides how many.
-/

namespace PresenceNode

variable {deviceId : List UInt8}

/-! ## One frame -/

theorem acceptAll_steady : Steady acceptAll := by
  intro a ha
  rw [List.eq_of_mem_replicate ha]
  exact Or.inl (le_refl 0)

theorem accepts_acceptAll : accepts acceptAll = 2 ^ 16 + 1 := by
  unfold accepts acceptAll
  rw [List.countP_replicate]
  rfl

/-- **The buffers of a dump make up one frame.** -/
theorem dumpBuffers_frame (deviceId : List UInt8) (firstSeq : UInt32) (d : DumpInput) :
    ∃ recs, recs.length < 2 ^ 16 ∧
      (dumpBuffers deviceId firstSeq d).flatten = wireFrame deviceId recs := by
  have hknown : Known d.node.flash d.node := fun s r hs _ => Or.inl hs
  obtain ⟨recs, h⟩ := dumpRun_isDump (w := ⟨d.node, d.sched, acceptAll, []⟩) hknown rfl deviceId
    d.mtu d.nextFirst firstSeq
  have hcount := (dumpRange d.nextFirst firstSeq ⟨d.node, d.sched, acceptAll, []⟩).1.1.toNat_lt
  have hlen : recs.length < 2 ^ 16 := by
    rw [h.length]
    exact hcount
  refine ⟨recs, hlen, ?_⟩
  apply h.whole
  apply h.ends acceptAll_steady
  rw [accepts_acceptAll]
  omega

theorem dumpBuffers_ne_nil (deviceId : List UInt8) (firstSeq : UInt32) (d : DumpInput) :
    dumpBuffers deviceId firstSeq d ≠ [] := by
  intro hnil
  obtain ⟨recs, hlen, hframe⟩ := dumpBuffers_frame deviceId firstSeq d
  have hsize := wireFrame_length deviceId hlen
  have hpos : 0 < sntlFrameSize (.ofNat recs.length) := by
    unfold sntlFrameSize
    have hheader : 0 < sntlHeaderSize := by decide
    omega
  rw [← hframe, hnil, List.flatten_nil, List.length_nil] at hsize
  omega

/-! ## Whatever the link answers -/

/-- The same world over another link. -/
def World.over (w : World) (link : List Attempt) : World := { w with link := link }

section Over

variable (w : World) (link : List Attempt)

theorem yield_over : (w.over link).yield = w.yield.over link := by
  obtain ⟨node, sched, old, sent⟩ := w
  cases sched with
  | nil => rfl
  | cons steps sched => rfl

theorem loadNext_over :
    (w.over link).loadNext = (w.loadNext.1, w.loadNext.2.over link) := by
  unfold World.loadNext
  rw [yield_over]
  rfl

theorem loadOldest_over :
    (w.over link).loadOldest = (w.loadOldest.1, w.loadOldest.2.over link) := by
  unfold World.loadOldest
  by_cases h : w.loadNext.1 > .ofNat storeCapacity
  · simp only [loadNext_over, if_pos h]
    rfl
  · simp only [loadNext_over, if_neg h]
    rfl

theorem acquire_over : (w.over link).acquire = w.acquire.over link := by
  have go : ∀ sched node, World.acquire.go (w.over link) sched node =
      (World.acquire.go w sched node).over link := by
    intro sched
    induction sched with
    | nil => exact fun _ => rfl
    | cons steps sched ih =>
      intro node
      unfold World.acquire.go
      simp only
      split
      · rfl
      · exact ih _
  exact go w.sched w.node

theorem get_over (seq : UInt32) :
    (w.over link).get seq = ((w.get seq).1, (w.get seq).2.over link) := by
  unfold World.get
  simp only [loadNext_over, loadOldest_over, acquire_over]
  split_ifs
  · rfl
  · rfl
  · rfl

theorem dumpRange_over (nextFirst : Bool) (firstSeq : UInt32) :
    dumpRange nextFirst firstSeq (w.over link) =
      ((dumpRange nextFirst firstSeq w).1, (dumpRange nextFirst firstSeq w).2.over link) := by
  unfold dumpRange
  cases nextFirst with
  | true => simp only [loadNext_over, loadOldest_over]; rfl
  | false => simp only [loadNext_over, loadOldest_over]; rfl

end Over

/-- A notification, over a link that has what follows it. -/
theorem notify_over (w : World) (link : List Attempt) (buf : List UInt8) :
    (w.notify buf).1.over link = { w with sent := w.sent ++ [buf], link := link } := by
  unfold World.notify
  simp only
  cases notifyChunk w.link with
  | none => rfl
  | some a => rfl

/-- What a flush leaves in the buffer, if the link goes on. -/
def leftover (chunk need : ℕ) (buf : List UInt8) : List UInt8 :=
  if buf.length + need > chunk then [] else buf

theorem flush_ok {w w' : World} {chunk need : ℕ} {buf buf' : List UInt8}
    (h : w.flush chunk need buf = (w', .ok buf')) : buf' = leftover chunk need buf := by
  unfold World.flush at h
  unfold leftover
  by_cases hfit : buf.length + need > chunk
  · rw [if_pos hfit] at h ⊢
    rcases hn : w.notify buf with ⟨w₁, _ | e⟩
    · rw [hn] at h
      simp only [Prod.mk.injEq, Except.ok.injEq] at h
      exact h.2.symm
    · rw [hn] at h
      simp at h
  · rw [if_neg hfit] at h ⊢
    simp only [Prod.mk.injEq, Except.ok.injEq] at h
    exact h.2.symm

/-- A flush over a link that goes on is handed what a flush over any link is. -/
theorem flush_over (w : World) {link : List Attempt} (h : Steady link) {k : ℕ}
    (hk : k + 1 ≤ accepts link) (chunk need : ℕ) (buf : List UInt8) :
    ∃ link', Steady link' ∧ k ≤ accepts link' ∧ (w.over link).flush chunk need buf =
      ((w.flush chunk need buf).1.over link', .ok (leftover chunk need buf)) := by
  unfold World.flush leftover
  by_cases hfit : buf.length + need > chunk
  · obtain ⟨rc, link', hn, hrc, hs, hk'⟩ := notifyChunk_steady h hk
    have hover : (w.over link).notify buf =
        ({ w with sent := w.sent ++ [buf], link := link' }, none) := by
      unfold World.notify World.over
      simp only [hn]
      rw [if_neg (by omega)]
    have hworld := notify_over w link' buf
    simp only [if_pos hfit, hover]
    refine ⟨link', hs, hk', ?_⟩
    rw [← hworld]
    rcases hw : w.notify buf with ⟨w', _ | e⟩
    · rfl
    · rfl
  · simp only [if_neg hfit]
    exact ⟨link, h, by omega, rfl⟩

/-- The loop over a link that goes on: the same while no notification fails, and no less
once one does. -/
theorem dumpLoop_over {chunk : ℕ} (hc : chunk ≤ dumpBufSize) (seqs : List UInt32) (crc : UInt16)
    (buf : List UInt8) (w : World) {link : List Attempt} (h : Steady link) {k : ℕ}
    (hk : seqs.length + k ≤ accepts link) :
    (∃ link' w' out, Steady link' ∧ k ≤ accepts link' ∧
      dumpLoop chunk seqs crc buf w = (w', .ok out) ∧
      dumpLoop chunk seqs crc buf (w.over link) = (w'.over link', .ok out)) ∨
    ∃ e, (dumpLoop chunk seqs crc buf w).2 = .error e ∧
      (dumpLoop chunk seqs crc buf w).1.sent <+:
        (dumpLoop chunk seqs crc buf (w.over link)).1.sent := by
  induction seqs generalizing crc buf w link with
  | nil => exact Or.inl ⟨link, w, (crc, buf), h, by simpa using hk, rfl, rfl⟩
  | cons seq seqs ih =>
    obtain ⟨link', hs, hk', hover⟩ := flush_over (w.get seq).2 h (k := seqs.length + k)
      (by simp only [List.length_cons] at hk; omega) chunk sntlRecordSize buf
    have hget := get_over w link seq
    have hover' : ((w.over link).get seq).2.flush chunk sntlRecordSize buf =
        (((w.get seq).2.flush chunk sntlRecordSize buf).1.over link',
          .ok (leftover chunk sntlRecordSize buf)) := by
      rw [hget]
      exact hover
    rw [dumpLoop_go hc hover', hget]
    simp only
    rcases hf : (w.get seq).2.flush chunk sntlRecordSize buf with ⟨w', e | buf'⟩
    · -- here the dump over `w` stops, with everything it sent
      rw [dumpLoop_stop hf]
      exact Or.inr ⟨e, rfl, dumpLoop_sent hc seqs _ _ (w'.over link')⟩
    · rw [dumpLoop_go hc hf, flush_ok hf]
      exact ih _ _ _ hs hk'

/-- The trailer once there is room for it: one more buffer is handed over. -/
theorem dumpTrailer_places {chunk : ℕ} (hc : chunk ≤ dumpBufSize) {crc : UInt16}
    {buf buf' : List UInt8} {w w' : World} (hf : w.flush chunk sntlCrcSize buf = (w', .ok buf')) :
    (dumpTrailer chunk crc buf w).1.sent = w'.sent ++ [buf' ++ crcBytes crc] := by
  have hroom := ((flush_spec w chunk sntlCrcSize buf).2.1 buf' (by rw [hf])).2
  have hplace : place buf' (crcBytes crc) = .ok (buf' ++ crcBytes crc) :=
    place_ok hc (show 2 ≤ dumpBufSize by decide) hroom
  have hsent := (notify_spec w' (buf' ++ crcBytes crc)).2.1
  rw [dumpTrailer]
  simp only [hf, hplace]
  rcases hn : w'.notify (buf' ++ crcBytes crc) with ⟨w₂, _ | e⟩
  · rw [hn] at hsent
    exact hsent
  · rw [hn] at hsent
    exact hsent

theorem dumpTrailer_over {chunk : ℕ} (hc : chunk ≤ dumpBufSize) (crc : UInt16) (buf : List UInt8)
    (w : World) {link : List Attempt} (h : Steady link) (hk : 2 ≤ accepts link) :
    (dumpTrailer chunk crc buf w).1.sent <+: (dumpTrailer chunk crc buf (w.over link)).1.sent := by
  obtain ⟨link', -, -, hover⟩ := flush_over w h hk chunk sntlCrcSize buf
  rw [dumpTrailer_places hc hover]
  rcases hf : w.flush chunk sntlCrcSize buf with ⟨w', e | buf'⟩
  · rw [dumpTrailer]
    simp only [hf]
    exact List.prefix_append _ _
  · rw [dumpTrailer_places hc hf, flush_ok hf]
    exact List.prefix_rfl

theorem dumpRest_over {chunk : ℕ} (hc : chunk ≤ dumpBufSize) (seqs : List UInt32) (crc : UInt16)
    (buf : List UInt8) (w : World) {link : List Attempt} (h : Steady link)
    (hk : seqs.length + 2 ≤ accepts link) :
    (dumpRest chunk seqs crc buf w).1.sent <+:
      (dumpRest chunk seqs crc buf (w.over link)).1.sent := by
  unfold dumpRest
  rcases dumpLoop_over hc seqs crc buf w h hk with
    ⟨link', w', ⟨crc', buf'⟩, hs, hk', hl, hover⟩ | ⟨e, he, hpre⟩
  · rw [hl, hover]
    exact dumpTrailer_over hc crc' buf' w' hs hk'
  · rcases hl : dumpLoop chunk seqs crc buf w with ⟨w', e' | out⟩
    · rw [hl] at hpre
      rcases hover : dumpLoop chunk seqs crc buf (w.over link) with ⟨w₂, e₂ | ⟨crc', buf'⟩⟩
      · rw [hover] at hpre
        exact hpre
      · rw [hover] at hpre
        exact List.IsPrefix.trans hpre
          ((flush_keeps w₂ chunk sntlCrcSize buf').trans (dumpTrailer_sent _ _ _ _))
    · rw [hl] at he
      simp at he

/-- **Whatever the link answers**, the buffers a dump passes to `notify_chunk` are the first
of those it would pass to a link that takes them all. -/
theorem dumpRun_prefix (deviceId : List UInt8) (firstSeq : UInt32) (d : DumpInput)
    (link : List Attempt) :
    (dumpRun deviceId d.mtu d.nextFirst firstSeq ⟨d.node, d.sched, link, []⟩).1.sent <+:
      dumpBuffers deviceId firstSeq d := by
  have hover := dumpRange_over ⟨d.node, d.sched, link, []⟩ acceptAll d.nextFirst firstSeq
  have hlt := (dumpRange_spec d.nextFirst firstSeq ⟨d.node, d.sched, link, []⟩).2
  rcases hr : dumpRange d.nextFirst firstSeq ⟨d.node, d.sched, link, []⟩ with ⟨⟨count, start⟩, w'⟩
  rw [hr] at hover hlt
  have hall : dumpRange d.nextFirst firstSeq ⟨d.node, d.sched, acceptAll, []⟩ =
      ((count, start), w'.over acceptAll) := hover
  unfold dumpBuffers
  rw [dumpRun_eq hr, dumpRun_eq hall]
  apply dumpRest_over (dumpChunk_le d.mtu) _ _ _ w' acceptAll_steady
  rw [accepts_acceptAll, seqRange_eq hlt, List.length_map, List.length_range]
  have hcount := count.toNat_lt
  show count.toNat + 2 ≤ 2 ^ 16 + 1
  omega

end PresenceNode
