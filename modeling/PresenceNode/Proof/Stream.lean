import PresenceNode.Proof.Reasm

/-!
# What the reassembler emits

* `push_sound` (every sequence of calls): every access is in bounds, and a push that
  returns 1 leaves in `buf[0..len)` the last bytes pushed, a whole frame.
* `feed_stream`: a stream of frames in gaps gives exactly its frames, each at its last
  byte. A gap may hold anything but the magic, and headers with impossible lengths.
* `feed_resync`: from any reachable state, over back-to-back frames, every frame that
  starts 2040 bytes in or later is emitted, after at most one stale frame.
-/

namespace PresenceNode

/-! ## A smallest frame -/

/-- A frame of 40 bytes: a header and no TLV. -/
def bareFrame : List UInt8 :=
  [2, 1, 4, 3, 6, 5, 8, 7, 0, 3, 5, 5, 40, 0, 0, 0, 50, 100, 10, 0, 7, 0, 0, 0] ++ List.replicate 16 0

theorem bareFrame_clean : tlvFraming.IsClean bareFrame := by
  refine ⟨⟨by decide, by decide, by decide, by decide⟩, ?_⟩
  intro i hi
  have hlt : i < 40 := by
    by_contra hge
    rw [List.drop_eq_nil_of_le (by simp [bareFrame]; omega)] at hi
    exact absurd hi (by decide)
  interval_cases i <;> first | rfl | exact absurd hi (by decide)

/-- A header of the same kind that claims 99999 bytes. -/
def bogusHeader : List UInt8 :=
  [2, 1, 4, 3, 6, 5, 8, 7, 0, 3, 5, 5, 0x9F, 0x86, 1, 0, 50, 100, 10, 0, 7, 0, 0, 0] ++
    List.replicate 16 0

theorem bogusHeader_bogus : tlvFraming.IsBogus bogusHeader := ⟨by decide, by decide, by decide⟩

/-! ## Soundness, completeness, recovery -/

/-- **The reassembler is sound.** In any sequence of calls in which a reset follows
every push that returned 1, the next push writes inside `buf` and looks the magic up
inside `tlv_magic`; if it returns 1, `buf[0..len)` is the last `len` bytes pushed, all
since the last reset, with the magic first and an admissible `totalPacketLen` equal to
`len`. So, over any stream, the emitted frames are disjoint pieces of it, in order. -/
theorem push_sound {h : List UInt8} {r : Reasm} (hc : Calls h r false) :
    (r.len ≠ 0 → r.len < tlvMaxFrame) ∧ (r.len = 0 → r.matched < tlvMagicLen) ∧
    (∀ b, ∃ r' ret, tlvPush r b = some (r', ret) ∧
      (ret = true → r'.frame <:+ h ++ [b] ∧ r'.frame.length = r'.len ∧
        tlvMagic.toList <+: r'.frame ∧ tlvHdrLen ≤ r'.len ∧ r'.len ≤ tlvMaxFrame ∧
        totalPacketLen r'.frame = r'.len)) ∧
    ∀ bs, ∃ r' ps last, feed (tlvReset r) bs = some (r', Framing.streamOuts ps last) ∧
      bs = Framing.stream ps last ∧ ∀ p ∈ ps, tlvFraming.IsFrame p.2 := by
  obtain ⟨s, hs, ht⟩ := (calls_sim hc).1 rfl
  refine ⟨?_, ?_, ?_, ?_⟩
  · intro hne
    cases s with
    | hunt m => exact absurd hs.1 hne
    | fill acc => rw [hs.1]; exact (fill_bounds hs.ok).2
  · intro h0
    cases s with
    | hunt m => rw [hs.2.1]; exact hs.2.2
    | fill acc =>
      have := (fill_bounds hs.ok).1
      rw [← hs.1, h0] at this
      exact absurd this (by decide)
  · intro b
    obtain ⟨r', ret, hp⟩ : ∃ r' ret, tlvPush r b = some (r', ret) := by
      rcases tlvPush_sim hs b with ⟨r', hp, -⟩ | ⟨r', f, hp, -⟩
      · exact ⟨r', false, hp⟩
      · exact ⟨r', true, hp⟩
    refine ⟨r', ret, hp, ?_⟩
    rintro rfl
    obtain ⟨hf, hsuf, hl⟩ := (calls_sim (Calls.push b hc hp)).2 rfl
    have hge := hf.ge
    have hle := hf.le
    rw [← hl] at hge hle
    exact ⟨hsuf, hl.symm, hf.marker, hge, hle, by rw [hl]; exact hf.want⟩
  · intro bs
    obtain ⟨ps, last, h1, h2, h3, -, -⟩ := Framing.run_split (F := tlvFraming) bs
    obtain ⟨r', hr, -⟩ := feed_reset r bs
    exact ⟨r', ps, last, by rw [hr, h2], h1, h3⟩

/-- The last byte of a frame, pushed after the others. -/
theorem push_sound_bare : ∃ r r', Calls bareFrame.dropLast r false ∧ tlvPush r 0 = some (r', true) ∧
    r'.frame <:+ bareFrame ∧ totalPacketLen r'.frame = r'.len := by
  obtain ⟨r, hc, hs⟩ := calls_of_silent .zero bareFrame.dropLast (by decide)
  obtain ⟨-, -, hpush, -⟩ := push_sound hc
  obtain ⟨r', ret, hp, hret⟩ := hpush 0
  rcases tlvPush_sim hs 0 with ⟨r₂, -, ho, -⟩ | ⟨r₂, f, hp₂, -, -, -⟩
  · exact absurd ho (by decide)
  · rw [hp₂] at hp
    simp only [Option.some.injEq, Prod.mk.injEq] at hp
    obtain ⟨rfl, rfl⟩ := hp
    obtain ⟨h1, -, -, -, -, h6⟩ := hret rfl
    exact ⟨r, r₂, hc, hp₂, h1, h6⟩

/-- **Reassembly is complete.** Frames in gaps, fed from the reset state, come out
whole: each at its last byte, and nothing else. -/
theorem feed_stream (r : Reasm) {ps : List (List UInt8 × List UInt8)} {last : List UInt8}
    (hps : ∀ p ∈ ps, tlvFraming.IsGap p.1 ∧ tlvFraming.IsFrame p.2) (hlast : tlvFraming.IsGap last) :
    ∃ r', feed (tlvReset r) (Framing.stream ps last) = some (r', Framing.streamOuts ps last) := by
  obtain ⟨m, -, hm⟩ := Framing.run_stream hlast ps hps
  obtain ⟨r', hr, -⟩ := feed_reset r (Framing.stream ps last)
  exact ⟨r', by rw [hr, hm]⟩

/-- Noise with part of a magic, a bogus header, part of a magic again, and two frames. -/
theorem feed_stream_noise :
    ∃ r', feed (tlvReset .zero)
        (Framing.stream [([0xAA, 2, 1, 4, 0, 2, 2, 1] ++ bogusHeader ++ [2, 1], bareFrame),
          ([], bareFrame)] [2, 1, 4]) =
      some (r', Framing.streamOuts [([0xAA, 2, 1, 4, 0, 2, 2, 1] ++ bogusHeader ++ [2, 1], bareFrame),
          ([], bareFrame)] [2, 1, 4]) := by
  have hfree : ∀ g : List UInt8, g ∈ [[0xAA, 2, 1, 4, 0, 2, 2, 1], [2, 1], [], [2, 1, 4]] →
      tlvFraming.Free g := by unfold Framing.Free; decide
  refine feed_stream .zero ?_ (.free (hfree _ (by simp)))
  intro p hp
  have hf := bareFrame_clean.toIsFrame
  rcases List.mem_cons.1 hp with rfl | hp
  · exact ⟨.bogus (.free (hfree _ (by simp))) bogusHeader_bogus (hfree _ (by simp)), hf⟩
  · rw [List.mem_singleton.1 hp]
    exact ⟨.free (hfree _ (by simp)), hf⟩

/-- **The reassembler recovers from any state** within 2040 bytes. -/
theorem feed_resync (r₀ : Reasm) (before : List UInt8) {fs : List (List UInt8)}
    (hfs : ∀ f ∈ fs, tlvFraming.IsClean f) :
    ∃ r os r' os' stale k, feed (tlvReset r₀) before = some (r, os) ∧
      feed r fs.flatten = some (r', os') ∧ os'.reduceOption = stale ++ fs.drop k ∧
      stale.length ≤ 1 ∧ ∀ i < fs.length, 2040 ≤ (fs.take i).flatten.length → k ≤ i := by
  obtain ⟨r, hr, hs⟩ := feed_reset r₀ before
  obtain ⟨r', hr', -⟩ := feed_sim fs.flatten hs
  obtain ⟨stale, k, h1, h2, h3⟩ := Framing.resync hs.ok hfs
  exact ⟨r, _, r', _, stale, k, hr, hr', h1, h2, h3⟩

/-- A header cut off after 20 bytes, then two frames. -/
theorem feed_resync_cut : ∃ r os r' os' stale k,
    feed (tlvReset .zero) (bareFrame.take 20) = some (r, os) ∧
    feed r [bareFrame, bareFrame].flatten = some (r', os') ∧
    os'.reduceOption = stale ++ [bareFrame, bareFrame].drop k ∧ stale.length ≤ 1 ∧
    ∀ i < 2, 2040 ≤ ([bareFrame, bareFrame].take i).flatten.length → k ≤ i :=
  feed_resync .zero (bareFrame.take 20) (by
    intro f hf
    simp only [List.mem_cons, List.not_mem_nil, or_false, or_self] at hf
    subst hf
    exact bareFrame_clean)

end PresenceNode
