import PresenceNode.Lib.Crc
import PresenceNode.Spec.Reader

/-!
# The CRC of a frame

`crcBit` is a shift of the general register, and `crcByte` feeds it a byte.

* `sntlCrc16_remainder`: the CRC is the remainder of a polynomial division, for every seed, and
  chains over any pieces.
* `sntlCrc16_burst`: it is linear, and finds every difference within 16 consecutive bits.
-/

namespace PresenceNode

open Polynomial

/-- The bits of a byte string, most significant bit of each byte first. -/
def wireBits (m : List UInt8) : List Bool := Crc.msgBits (m.map UInt8.toBitVec)

/-- The polynomial `0x1021`, without its highest term. -/
def ccitt : BitVec 16 := 0x1021

theorem genPoly_ccitt : Crc.genPoly ccitt = X ^ 16 + X ^ 12 + X ^ 5 + 1 := by
  have hbits : Crc.bits ccitt = [false, false, false, true, false, false, false, false,
      false, false, true, false, false, false, false, true] := by decide
  rw [Crc.genPoly, Crc.regPoly, hbits]
  simp only [Crc.bitPoly, List.length_cons, List.length_nil, Bool.toNat_false, Bool.toNat_true,
    Nat.cast_zero, Nat.cast_one, map_zero, map_one]
  ring

/-! ## The code's register -/

theorem crcBit_toBitVec (crc : UInt16) :
    (crcBit crc).toBitVec = Crc.shiftStep ccitt crc.toBitVec := by
  have hmsb : (crc &&& 0x8000 ≠ 0) ↔ crc.toBitVec.msb = true := by
    rw [Ne, ← UInt16.toBitVec_inj, UInt16.toBitVec_and]
    have htop : (0x8000 : UInt16).toBitVec = BitVec.twoPow 16 15 := by decide
    rw [htop, BitVec.and_twoPow, BitVec.msb_eq_getLsbD_last]
    cases crc.toBitVec.getLsbD 15 <;> simp
  unfold crcBit Crc.shiftStep
  by_cases h : crc &&& 0x8000 ≠ 0
  · rw [if_pos h, if_pos (hmsb.1 h)]
    rfl
  · rw [if_neg h, if_neg (fun h' => h (hmsb.2 h'))]
    rfl

theorem crcByte_toBitVec (crc : UInt16) (b : UInt8) :
    (crcByte crc b).toBitVec = Crc.feed ccitt crc.toBitVec b.toBitVec := by
  have hbit : Function.Semiconj UInt16.toBitVec crcBit (Crc.shiftStep ccitt) := crcBit_toBitVec
  rw [crcByte, (hbit.iterate_right 8).eq]
  rfl

theorem sntlCrc16_toBitVec (seed : UInt16) (m : List UInt8) :
    (sntlCrc16 seed m).toBitVec = Crc.crc ccitt seed.toBitVec (m.map UInt8.toBitVec) := by
  induction m generalizing seed with
  | nil => rfl
  | cons b m ih =>
    have hcons : sntlCrc16 seed (b :: m) = sntlCrc16 (crcByte seed b) m := rfl
    rw [hcons, ih, crcByte_toBitVec]
    rfl

/-! ## The remainder -/

theorem sntlCrc16_poly (seed : UInt16) (m : List UInt8) :
    Crc.regPoly (sntlCrc16 seed m).toBitVec =
      (Crc.bitPoly (wireBits m) * X ^ 16 + Crc.regPoly seed.toBitVec * X ^ (8 * m.length)) %ₘ
        (X ^ 16 + X ^ 12 + X ^ 5 + 1) := by
  rw [sntlCrc16_toBitVec, Crc.crc_poly (by decide), genPoly_ccitt, List.length_map]
  rfl

theorem sntlCrc16_flatten (seed : UInt16) (ps : List (List UInt8)) :
    ps.foldl sntlCrc16 seed = sntlCrc16 seed ps.flatten := by
  induction ps generalizing seed with
  | nil => rfl
  | cons p ps ih => rw [List.foldl_cons, ih, List.flatten_cons, sntlCrc16_append]

/-- **The CRC is CCITT-FALSE and chains**: for every seed and every message it is the remainder
of the message and the seed, and pieces may be fed in turn. -/
theorem sntlCrc16_remainder (seed : UInt16) (m : List UInt8) :
    Crc.regPoly (sntlCrc16 seed m).toBitVec =
        (Crc.bitPoly (wireBits m) * X ^ 16 + Crc.regPoly seed.toBitVec * X ^ (8 * m.length)) %ₘ
          (X ^ 16 + X ^ 12 + X ^ 5 + 1) ∧
      ∀ ps : List (List UInt8), ps.foldl sntlCrc16 seed = sntlCrc16 seed ps.flatten :=
  ⟨sntlCrc16_poly seed m, sntlCrc16_flatten seed⟩

/-! ## Bursts -/

theorem sntlCrc16_xor (s t : UInt16) (a b : List UInt8) (hlen : a.length = b.length) :
    sntlCrc16 (s ^^^ t) (List.zipWith (· ^^^ ·) a b) = sntlCrc16 s a ^^^ sntlCrc16 t b := by
  apply UInt16.toBitVec_inj.1
  have hmap : (List.zipWith (· ^^^ ·) a b).map UInt8.toBitVec =
      List.zipWith (· ^^^ ·) (a.map UInt8.toBitVec) (b.map UInt8.toBitVec) := by
    rw [List.map_zipWith, List.zipWith_map]
    rfl
  rw [UInt16.toBitVec_xor, sntlCrc16_toBitVec, sntlCrc16_toBitVec, sntlCrc16_toBitVec, hmap,
    UInt16.toBitVec_xor]
  exact Crc.crc_xor (by decide) ccitt _ _ _ _ (by simpa using hlen)

theorem sntlCrc16_ne {a b : List UInt8} (s : UInt16) (hlen : a.length = b.length) (hne : a ≠ b)
    (hwin : Crc.DifferWithin 16 (wireBits a) (wireBits b)) : sntlCrc16 s a ≠ sntlCrc16 s b := by
  intro heq
  have hne' : a.map UInt8.toBitVec ≠ b.map UInt8.toBitVec := fun h =>
    hne (List.map_injective_iff.2 (fun _ _ => UInt8.toBitVec_inj.1) h)
  have hone : ccitt.getLsbD 0 = true := by decide
  apply Crc.crc_ne_of_burst (by decide) hone s.toBitVec (by simpa using hlen) hne' hwin
  rw [← sntlCrc16_toBitVec, ← sntlCrc16_toBitVec, heq]

/-- **The trailer agrees** with what stands before it. -/
def TrailerPasses (bs : List UInt8) : Prop :=
  u16At bs (bs.length - 2) = sntlCrc16 0xFFFF (bs.take (bs.length - 2))

theorem Readable.trailer {bs : List UInt8} (h : Readable bs) : TrailerPasses bs := h.crc

theorem trailerPasses_append {a t : List UInt8} (ht : t.length = sntlCrcSize) :
    TrailerPasses (a ++ t) ↔ u16At t 0 = sntlCrc16 0xFFFF a := by
  have hlen : (a ++ t).length - 2 = a.length := by
    rw [List.length_append, ht]
    simp
  rw [TrailerPasses, hlen, List.take_left]
  unfold u16At
  rw [List.drop_left, List.drop_zero]

theorem trailerPasses_burst {a b t : List UInt8} (ht : t.length = sntlCrcSize)
    (hlen : a.length = b.length) (hne : a ≠ b)
    (hwin : Crc.DifferWithin 16 (wireBits a) (wireBits b)) :
    ¬ (TrailerPasses (a ++ t) ∧ TrailerPasses (b ++ t)) := by
  rintro ⟨ha, hb⟩
  rw [trailerPasses_append ht] at ha hb
  exact sntlCrc16_ne 0xFFFF hlen hne hwin (ha.symm.trans hb)

/-- **Bursts are found**: the CRC is linear; messages of one length that differ, and differ
only within 16 consecutive bits, have different CRCs, so no trailer passes with both. -/
theorem sntlCrc16_burst (s : UInt16) (a b : List UInt8) (hlen : a.length = b.length) :
    sntlCrc16 s a ^^^ sntlCrc16 s b = sntlCrc16 0 (List.zipWith (· ^^^ ·) a b) ∧
      (a ≠ b → Crc.DifferWithin 16 (wireBits a) (wireBits b) →
        sntlCrc16 s a ≠ sntlCrc16 s b ∧
          ∀ t : List UInt8, t.length = sntlCrcSize →
            ¬ (TrailerPasses (a ++ t) ∧ TrailerPasses (b ++ t))) := by
  refine ⟨?_, ?_⟩
  · have hxor := sntlCrc16_xor s s a b hlen
    rw [UInt16.xor_self] at hxor
    exact hxor.symm
  · intro hne hwin
    refine ⟨sntlCrc16_ne s hlen hne hwin, ?_⟩
    intro t ht
    exact trailerPasses_burst ht hlen hne hwin

/-- A burst over three bytes: the differing bits are 9 to 24 of 32. -/
theorem sntlCrc16_burst_three :
    sntlCrc16 0xFFFF [0x53, 0x4E, 0x54, 0x4C] ≠ sntlCrc16 0xFFFF [0x53, 0x0E, 0xAB, 0xCC] ∧
      ∀ t : List UInt8, t.length = sntlCrcSize →
        ¬ (TrailerPasses ([0x53, 0x4E, 0x54, 0x4C] ++ t) ∧
          TrailerPasses ([0x53, 0x0E, 0xAB, 0xCC] ++ t)) :=
  (sntlCrc16_burst 0xFFFF [0x53, 0x4E, 0x54, 0x4C] [0x53, 0x0E, 0xAB, 0xCC] rfl).2 (by decide)
    (Crc.differWithin_iff.2 ⟨9, by decide, by decide⟩)

end PresenceNode
