import PresenceNode.Lib.Flips
import PresenceNode.Proof.Crc
import PresenceNode.Proof.RoundTrip
import Mathlib.Tactic.NormNum.Prime

/-!
# Which errors the CRC of a frame finds

* `period_ccitt`: the period of the generator is 32767 bits.
* `crossed_clear`: a frame whose trailer passes leaves the register clear, once the two bytes of the
  trailer are crossed.
* `frame_flips`: a reader refuses a frame with an odd number of flipped bits, and one of up to 4095
  bytes with two; two flips before the trailer pass iff they are a multiple of the period apart.
-/

namespace PresenceNode

/-- The number of bits in which two byte strings of one length differ. -/
def flipped (a b : List UInt8) : ℕ := Crc.flips (wireBits a) (wireBits b)

theorem wireBits_append (a b : List UInt8) : wireBits (a ++ b) = wireBits a ++ wireBits b := by
  unfold wireBits Crc.msgBits
  rw [List.map_append, List.flatMap_append]

theorem wireBits_length (a : List UInt8) : (wireBits a).length = 8 * a.length := by
  rw [wireBits, Crc.msgBits_length, List.length_map]

theorem flipped_append {a b : List UInt8} (c d : List UInt8) (h : a.length = b.length) :
    flipped (a ++ c) (b ++ d) = flipped a b + flipped c d := by
  unfold flipped
  rw [wireBits_append, wireBits_append, Crc.flips_append]
  rw [wireBits_length, wireBits_length, h]

/-! ## The generator -/

theorem ccitt_odd : ccitt.getLsbD 0 = true := by decide

theorem ccitt_evenTerms : Crc.EvenTerms ccitt := by decide

/-- The prime factors of 32767. -/
theorem prime_dvd_ccitt {p : ℕ} (hp : p.Prime) (h : p ∣ 32767) : p = 7 ∨ p = 31 ∨ p = 151 := by
  have hfactors : 32767 = 7 * (31 * 151) := by norm_num
  rw [hfactors, hp.dvd_mul, hp.dvd_mul, Nat.prime_dvd_prime_iff_eq hp (by norm_num),
    Nat.prime_dvd_prime_iff_eq hp (by norm_num), Nat.prime_dvd_prime_iff_eq hp (by norm_num)] at h
  exact h

/-- `X ^ 32767` is one, and no smaller power is. -/
theorem period_ccitt : Crc.period ccitt = 32767 := by
  refine Crc.period_eq (by decide) (by decide) (List.replicate 15 true) (by decide)
    (by decide +kernel) ?_
  intro p hp hdvd
  rcases prime_dvd_ccitt hp hdvd with rfl | rfl | rfl
  · exact ⟨[true, false, false, true, false, false, true, false, false, true, false, false, true],
      by decide, by decide +kernel⟩
  · exact ⟨[true, false, false, false, false, true, false, false, false, false, true], by decide,
      by decide +kernel⟩
  · exact ⟨[true, true, false, true, true, false, false, true], by decide, by decide +kernel⟩

/-! ## The trailer crossed -/

theorem bits_append {n m : ℕ} (x : BitVec n) (y : BitVec m) :
    Crc.bits (x ++ y) = Crc.bits x ++ Crc.bits y := by
  unfold Crc.bits
  rw [List.range_add, List.map_append, List.map_map]
  congr 1
  · refine List.map_congr_left fun i hi => ?_
    have hlt := List.mem_range.1 hi
    rw [BitVec.getMsbD_append, if_neg (by omega)]
  · refine List.map_congr_left fun i _ => ?_
    simp [BitVec.getMsbD_append]

theorem u16At_pair (lo hi : UInt8) : (u16At [lo, hi] 0).toBitVec = hi.toBitVec ++ lo.toBitVec := by
  apply BitVec.eq_of_toNat_eq
  have hlo := lo.toNat_lt
  have hhi := hi.toNat_lt
  rw [BitVec.toNat_append, Nat.lor_comm, LittleEndian.or_shift (by simpa using hlo)]
  simp only [u16At, List.drop_zero, List.take_succ_cons, List.take_nil, LittleEndian.dec]
  simp
  omega

/-- The bits of the trailer's number are those of its bytes, crossed. -/
theorem wireBits_crossed (lo hi : UInt8) :
    wireBits [hi, lo] = Crc.bits (u16At [lo, hi] 0).toBitVec := by
  rw [u16At_pair, bits_append]
  show Crc.bits hi.toBitVec ++ (Crc.bits lo.toBitVec ++ []) = _
  rw [List.append_nil]

/-- **A trailer that passes clears the register**, its high byte first. -/
theorem crossed_clear {a : List UInt8} {lo hi : UInt8} (h : TrailerPasses (a ++ [lo, hi])) :
    sntlCrc16 0xFFFF (a ++ [hi, lo]) = 0 := by
  rw [trailerPasses_append rfl] at h
  rw [sntlCrc16_append, ← h]
  apply UInt16.toBitVec_inj.1
  rw [sntlCrc16_toBitVec]
  exact Crc.crc_self (by decide) _ _ (wireBits_crossed lo hi)

/-- A string of at least two bytes ends in two. -/
theorem exists_trailer {f : List UInt8} (h : 2 ≤ f.length) : ∃ a lo hi, f = a ++ [lo, hi] := by
  have hlen : (f.drop (f.length - 2)).length = 2 := by
    rw [List.length_drop]
    omega
  obtain ⟨lo, hi, htwo⟩ := List.length_eq_two.1 hlen
  exact ⟨f.take (f.length - 2), lo, hi, by rw [← htwo, List.take_append_drop]⟩

/-! ## Flips -/

/-- Crossing the trailers does not change the number of flips. -/
theorem flipped_crossed {a a' : List UInt8} (hlen : a.length = a'.length) (lo hi lo' hi' : UInt8) :
    flipped (a ++ [hi, lo]) (a' ++ [hi', lo']) = flipped (a ++ [lo, hi]) (a' ++ [lo', hi']) := by
  have hpair : ∀ x y x' y' : UInt8, flipped [x, y] [x', y'] = flipped [x] [x'] + flipped [y] [y'] :=
    fun x y x' y' => flipped_append (a := [x]) (b := [x']) [y] [y'] rfl
  rw [flipped_append _ _ hlen, flipped_append _ _ hlen, hpair, hpair, Nat.add_comm (flipped [hi] _)]

/-- Messages with a clear register are not told apart. -/
theorem crc_of_clear {a b : List UInt8} (ha : sntlCrc16 0xFFFF a = 0) (hb : sntlCrc16 0xFFFF b = 0) :
    Crc.crc ccitt (0xFFFF : UInt16).toBitVec (a.map UInt8.toBitVec) =
      Crc.crc ccitt (0xFFFF : UInt16).toBitVec (b.map UInt8.toBitVec) := by
  rw [← sntlCrc16_toBitVec, ← sntlCrc16_toBitVec, ha, hb]

variable {f f' : List UInt8}

theorem trailer_odd (hf : TrailerPasses f) (hf' : TrailerPasses f') (h2 : 2 ≤ f.length)
    (hlen : f'.length = f.length) : ¬ Odd (flipped f f') := by
  obtain ⟨a, lo, hi, rfl⟩ := exists_trailer h2
  obtain ⟨a', lo', hi', rfl⟩ := exists_trailer (hlen ▸ h2)
  have haa : a.length = a'.length := by simpa using hlen.symm
  rw [← flipped_crossed haa]
  intro hodd
  exact Crc.crc_ne_of_odd (by decide) ccitt_evenTerms _ (by simp [haa]) hodd
    (crc_of_clear (crossed_clear hf) (crossed_clear hf'))

theorem trailer_flips (hf : TrailerPasses f) (hf' : TrailerPasses f') (h2 : 2 ≤ f.length)
    (hlen : f'.length = f.length) (hmax : f.length ≤ 4095) (hpos : 0 < flipped f f') :
    3 < flipped f f' := by
  obtain ⟨a, lo, hi, rfl⟩ := exists_trailer h2
  obtain ⟨a', lo', hi', rfl⟩ := exists_trailer (hlen ▸ h2)
  have haa : a.length = a'.length := by simpa using hlen.symm
  rw [← flipped_crossed haa] at hpos ⊢
  by_contra hle
  have hper : 8 * ((a ++ [hi, lo]).map UInt8.toBitVec).length ≤ Crc.period ccitt := by
    rw [period_ccitt]
    simp only [List.length_map, List.length_append, List.length_cons, List.length_nil] at hmax ⊢
    omega
  exact Crc.crc_ne_of_flips (by decide) ccitt_odd ccitt_evenTerms _ (by simp [haa]) hpos
    (Nat.le_of_not_lt hle) hper (crc_of_clear (crossed_clear hf) (crossed_clear hf'))

/-- Two flips before the trailer. -/
theorem trailer_apart (hf : TrailerPasses f) (h2 : 2 ≤ f.length) (hlen : f'.length = f.length)
    {i j : ℕ} (hij : i < j) (hj : j < 8 * (f.length - 2))
    (h : ∀ k, (wireBits f)[k]? ≠ (wireBits f')[k]? ↔ k = i ∨ k = j) :
    TrailerPasses f' ↔ 32767 ∣ j - i := by
  obtain ⟨a, lo, hi, rfl⟩ := exists_trailer h2
  obtain ⟨a', lo', hi', rfl⟩ := exists_trailer (hlen ▸ h2)
  have haa : a.length = a'.length := by simpa using hlen.symm
  have hja : j < 8 * a.length := by simpa using hj
  -- the trailers are the same
  have htrailer : wireBits [lo, hi] = wireBits [lo', hi'] := by
    refine List.ext_getElem? fun k => ?_
    by_contra hne
    have hk := (h (8 * a.length + k)).1 (by
      rw [wireBits_append, wireBits_append, ← wireBits_length,
        List.getElem?_append_right (Nat.le_add_right _ _), Nat.add_sub_cancel_left, wireBits_length,
        haa, ← wireBits_length, List.getElem?_append_right (Nat.le_add_right _ _),
        Nat.add_sub_cancel_left]
      exact hne)
    omega
  have hmap : [lo, hi].map UInt8.toBitVec = [lo', hi'].map UInt8.toBitVec :=
    Crc.msgBits_inj rfl htrailer
  have hsame : [lo, hi] = [lo', hi'] :=
    List.map_injective_iff.2 (fun _ _ => UInt8.toBitVec_inj.1) hmap
  rw [← hsame, trailerPasses_append rfl, (trailerPasses_append rfl).1 hf]
  have hbody : ∀ k < 8 * (a.map UInt8.toBitVec).length,
      (Crc.msgBits (a.map UInt8.toBitVec))[k]? ≠ (Crc.msgBits (a'.map UInt8.toBitVec))[k]? ↔
        k = i ∨ k = j := by
    intro k hk
    rw [List.length_map] at hk
    rw [← h k, wireBits_append, wireBits_append,
      List.getElem?_append_left (by rwa [wireBits_length]),
      List.getElem?_append_left (by rwa [wireBits_length, ← haa])]
    rfl
  have hcrc := Crc.crc_eq_iff_apart (by decide) ccitt_odd (0xFFFF : UInt16).toBitVec
    (a := a.map UInt8.toBitVec) (b := a'.map UInt8.toBitVec) (by simp [haa]) hij (by simpa using hja)
    hbody
  rw [← period_ccitt, ← hcrc, ← sntlCrc16_toBitVec, ← sntlCrc16_toBitVec, UInt16.toBitVec_inj]

/-- **Which errors are found.** Let a frame be readable, and let some of its bits be flipped. If their
number is odd, a reader refuses the frame; if there are up to three and the frame has no more than
4095 bytes, too. And two flips before the trailer pass exactly if they are a multiple of 32767 bits
apart. -/
theorem frame_flips (hread : Readable f) (hlen : f'.length = f.length) :
    (Odd (flipped f f') → readFrame f' = none) ∧
      (f.length ≤ 4095 → 0 < flipped f f' → flipped f f' ≤ 3 → readFrame f' = none) ∧
      ∀ i j, i < j → j < 8 * (f.length - 2) →
        (∀ k, (wireBits f)[k]? ≠ (wireBits f')[k]? ↔ k = i ∨ k = j) →
          (TrailerPasses f' ↔ 32767 ∣ j - i) := by
  have h2 : 2 ≤ f.length := by
    rw [hread.length]
    omega
  refine ⟨?_, ?_, fun i j hij hj h => trailer_apart hread.trailer h2 hlen hij hj h⟩
  · intro hodd
    exact if_neg fun hread' => trailer_odd hread.trailer hread'.trailer h2 hlen hodd
  · intro hmax hpos hle
    refine if_neg fun hread' => ?_
    have hmore := trailer_flips hread.trailer hread'.trailer h2 hlen hmax hpos
    omega

/-- A frame without records, and three bits of its device id. -/
theorem frame_flips_deviceId :
    readFrame ((wireFrame [0x50, 0x52] []).set 9 0x55) = none := by
  have hread : Readable (wireFrame [0x50, 0x52] []) := by decide +kernel
  exact (frame_flips hread (List.length_set ..)).2.1 (by decide) (by decide +kernel)
    (by decide +kernel)

end PresenceNode
