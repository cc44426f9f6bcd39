import PresenceNode.Lib.Rescan
import PresenceNode.Proof.Stream

/-!
# Frames hidden in a header that is dropped

`tlv_push` knows that a length is bogus once all 40 bytes of the header are in, and hunts on
behind them.

* `tlvRescan`: the reference scanner, which resumes right after the magic.
* `feed_rescan_iff`: over an endless stream the two emit the same frames, each at the same byte,
  if and only if no header that is dropped hides the start of a frame.
* `feed_misses`: a frame right behind a header that was cut off after 16 bytes.
-/

namespace PresenceNode

open Framing

/-- **The reference scanner**: where a magic carries a `totalPacketLen` outside 40..2048, it
resumes hunting at the byte right after that magic. Its outputs stand at the bytes that
complete them. -/
def tlvRescan (bs : List UInt8) : List (Option (List UInt8)) := tlvFraming.scan tlvMagicLen bs

/-- **Resynchronisation skips nothing if and only if nothing is hidden**: the reassembler emits
what the reference scanner emits, on all that has come of a stream at any time, exactly when
none of the headers that it drops has, starting among its other 39 bytes, a magic followed by
an admissible `totalPacketLen`. -/
theorem feed_rescan_iff (r : Reasm) (x : ℕ → UInt8) :
    (∀ n, ∃ r', feed (tlvReset r) (window x 0 n) = some (r', tlvRescan (window x 0 n))) ↔
      ∀ q, tlvFraming.Dropped x q → ¬ tlvFraming.Hides x q := by
  rw [← run_rescan_iff]
  constructor
  · intro h n
    obtain ⟨r', hr⟩ := h n
    obtain ⟨r'', hr', -⟩ := feed_reset r (window x 0 n)
    have heq := Option.some.inj (hr'.symm.trans hr)
    exact congrArg Prod.snd heq
  · intro h n
    obtain ⟨r', hr, -⟩ := feed_reset r (window x 0 n)
    refine ⟨r', ?_⟩
    rw [hr, h n]
    rfl

/-- A header with a bogus length, cut off after 16 bytes, and a frame. -/
def cutStream : List UInt8 := bogusHeader.take 16 ++ bareFrame

theorem cutStream_rescan : some bareFrame ∈ tlvRescan cutStream := by
  have hbogus : tlvRescan cutStream = silent (cutStream.take 8) ++
      tlvFraming.scan tlvMagicLen (cutStream.drop 8) :=
    scan_bogus (by decide) (by decide) (by decide) (by decide)
  have hskip : tlvFraming.scan tlvMagicLen (cutStream.drop 8) =
      silent ((cutStream.drop 8).take 8) ++
        tlvFraming.scan tlvMagicLen ((cutStream.drop 8).drop 8) := scan_skip (by decide)
  have hrest : (cutStream.drop 8).drop 8 = bareFrame := by decide
  have hframe : tlvFraming.scan tlvMagicLen bareFrame =
      outs (bareFrame.take (tlvFraming.want bareFrame)) ++
        tlvFraming.scan tlvMagicLen (bareFrame.drop (tlvFraming.want bareFrame)) :=
    scan_frame (by decide) (by decide) (by decide) (by decide)
  have htake : bareFrame.take (tlvFraming.want bareFrame) = bareFrame := by decide
  rw [hbogus, hskip, hrest, hframe, htake]
  simp [outs]

/-- **A frame is missed**: its magic lies among the bytes that were taken for the rest of the
header that was cut off. -/
theorem feed_misses : ¬ ∀ (r : Reasm) (bs : List UInt8),
    ∃ r', feed (tlvReset r) bs = some (r', tlvRescan bs) := by
  intro hall
  obtain ⟨r', hr⟩ := hall .zero cutStream
  obtain ⟨r'', hr', -⟩ := feed_reset .zero cutStream
  have heq : (tlvFraming.run (.hunt 0) cutStream).2 = tlvRescan cutStream :=
    congrArg Prod.snd (Option.some.inj (hr'.symm.trans hr))
  have hsilent : (tlvFraming.run (.hunt 0) cutStream).2 = silent cutStream := by decide
  have hmem := cutStream_rescan
  rw [← heq, hsilent] at hmem
  exact absurd (List.eq_of_mem_replicate hmem) (by simp)

end PresenceNode
