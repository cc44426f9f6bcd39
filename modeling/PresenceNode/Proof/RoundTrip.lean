import PresenceNode.Proof.Dump
import PresenceNode.Spec.Reader

/-!
# A frame reads back

* `enc4_eq`, `enc2_eq`: the shifts of the encoder are the little-endian bytes.
* `readRecord_encode`: a record reads back; `encode_v2`: its first 14 bytes are version 2's.
* `flatMap_chunk`: records of one size lie at multiples of it.
* `frame_round_trip`: a frame is accepted and reads back as what it was made of.
-/

namespace PresenceNode

open LittleEndian

/-! ## Bytes -/

theorem enc2_eq (x : UInt16) : [x.toUInt8, (x >>> 8).toUInt8] = enc 2 x.toNat := crcBytes_eq x

theorem enc4_eq (x : UInt32) :
    [x.toUInt8, (x >>> 8).toUInt8, (x >>> 16).toUInt8, (x >>> 24).toUInt8] = enc 4 x.toNat := by
  have hb : ∀ k : UInt32, k.toNat < 32 →
      (x >>> k).toUInt8 = UInt8.ofNat (x.toNat / 2 ^ k.toNat) := by
    intro k hk
    apply UInt8.toNat_inj.1
    rw [UInt32.toNat_toUInt8, UInt32.toNat_shiftRight, UInt8.toNat_ofNat', Nat.mod_eq_of_lt hk,
      Nat.shiftRight_eq_div_pow]
  have h8 := hb 8 (by decide)
  have h16 := hb 16 (by decide)
  have h24 := hb 24 (by decide)
  rw [h8, h16, h24]
  simp only [enc, Nat.div_div_eq_div_mul]
  rfl

/-- **The encoded record is the record's memory image.** -/
theorem sntlEncodeRecord_image (rec : SntlRecord) : sntlEncodeRecord rec = rec.image := by
  unfold SntlRecord.image
  rw [← enc4_eq, ← enc4_eq, ← enc2_eq, ← enc2_eq, ← enc2_eq, ← enc2_eq, ← enc2_eq, ← enc2_eq]
  rfl

/-- **A record reads back.** -/
theorem readRecord_encode (rec : SntlRecord) : readRecord (sntlEncodeRecord rec) = rec := by
  rw [sntlEncodeRecord_image]
  exact SntlRecord.ofImage_image rec

/-- **The first 14 bytes** say what version 2 said, and nothing else. -/
theorem encode_v2 (rec rec' : SntlRecord) :
    (sntlEncodeRecord rec).take 14 = (sntlEncodeRecord rec').take 14 ↔ rec.v2 = rec'.v2 := by
  have hread : ∀ r : SntlRecord, (readRecord ((sntlEncodeRecord r).take 14)).v2 = r.v2 := by
    intro r
    have h : (readRecord ((sntlEncodeRecord r).take 14)).v2 =
        (readRecord (sntlEncodeRecord r)).v2 := rfl
    rw [h, readRecord_encode]
  constructor
  · intro h
    rw [← hread rec, ← hread rec', h]
  · intro h
    obtain ⟨seq, ts, headcount, occS, dwellS, flags, batt, _, _, _, _, _⟩ := rec
    obtain ⟨seq', ts', headcount', occS', dwellS', flags', batt', _, _, _, _, _⟩ := rec'
    simp only [SntlRecord.v2, SntlRecordV2.mk.injEq] at h
    obtain ⟨rfl, rfl, rfl, rfl, rfl, rfl, rfl⟩ := h
    rfl

/-! ## The parts of a frame -/

/-- Pieces of one size lie at its multiples. -/
theorem flatMap_chunk {α β : Type} {f : α → List β} {k : ℕ} (hf : ∀ a, (f a).length = k)
    (l : List α) (i : ℕ) (hi : i < l.length) :
    ((l.flatMap f).drop (k * i)).take k = f l[i] := by
  induction l generalizing i with
  | nil => simp at hi
  | cons a l ih =>
    rw [List.flatMap_cons]
    cases i with
    | zero =>
      rw [Nat.mul_zero, List.drop_zero, List.take_append_of_le_length (hf a).ge,
        List.take_of_length_le (hf a).le]
      rfl
    | succ i =>
      rw [Nat.mul_succ, Nat.add_comm, ← List.drop_drop, List.drop_append_of_le_length (hf a).ge,
        List.drop_of_length_le (hf a).le, List.nil_append]
      exact ih i (by simpa using hi)

section Frame

variable {deviceId : List UInt8} {recs : List SntlRecord}

theorem header_id (hid : deviceId.length ≤ 8) (hnul : 0 ∉ deviceId) (n : UInt16) :
    sntlEncodeHeader n deviceId =
      [0x53, 0x4E, 0x54, 0x4C, 3, 24, n.toUInt8, (n >>> 8).toUInt8] ++
        (deviceId ++ List.replicate (8 - deviceId.length) 0) := by
  have htake : (deviceId.take sntlDeviceIdLen).takeWhile (· ≠ 0) = deviceId := by
    rw [List.take_of_length_le hid, List.takeWhile_eq_self_iff]
    intro b hb
    rw [decide_eq_true_eq]
    rintro rfl
    exact hnul hb
  unfold sntlEncodeHeader
  rw [htake, List.append_assoc]

/-- **Zero padding comes off** an id without a zero. -/
theorem rdropWhile_padding (hnul : 0 ∉ deviceId) (k : ℕ) :
    (deviceId ++ List.replicate k (0 : UInt8)).rdropWhile (· = 0) = deviceId := by
  induction k with
  | zero =>
    rw [List.replicate_zero, List.append_nil, List.rdropWhile_eq_self_iff]
    intro hne hlast
    rw [decide_eq_true_eq] at hlast
    apply hnul
    rw [← hlast]
    exact List.getLast_mem hne
  | succ k ih =>
    rw [List.replicate_succ', ← List.append_assoc, List.rdropWhile_concat_pos _ _ _ (by decide)]
    exact ih

/-- The frame from its header on. -/
theorem wireFrame_split (deviceId : List UInt8) (recs : List SntlRecord) : ∃ crc, crc.length = 2 ∧
    wireFrame deviceId recs =
      sntlEncodeHeader (.ofNat recs.length) deviceId ++ (recs.flatMap sntlEncodeRecord ++ crc) ∧
    crc = enc 2 (sntlCrc16 0xFFFF (frameBody deviceId recs)).toNat := by
  refine ⟨_, enc_length 2 _, ?_, rfl⟩
  unfold wireFrame
  rw [← List.append_assoc]
  rfl

theorem frameBody_length (deviceId : List UInt8) (recs : List SntlRecord) :
    (frameBody deviceId recs).length = 16 + 24 * recs.length := by
  unfold frameBody
  rw [List.length_append, sntlEncodeHeader_length, records_length, Nat.mul_comm]

/-- The count in the header. -/
theorem wireFrame_count (hlen : recs.length ≤ 65535) :
    (u16At (wireFrame deviceId recs) 6).toNat = recs.length := by
  have hbytes : ((wireFrame deviceId recs).drop 6).take 2 =
      enc 2 (UInt16.ofNat recs.length).toNat := by
    rw [← enc2_eq]
    rfl
  unfold u16At
  rw [hbytes, dec_enc (UInt16.toNat_lt _), UInt16.ofNat_toNat, UInt16.toNat_ofNat_of_lt']
  show _ < 65536
  omega

/-- **The record `i` of a frame** stands at `16 + 24 i`. -/
theorem wireFrame_record (i : ℕ) (hi : i < recs.length) :
    ((wireFrame deviceId recs).drop (16 + 24 * i)).take 24 = sntlEncodeRecord recs[i] := by
  obtain ⟨crc, -, hsplit, -⟩ := wireFrame_split deviceId recs
  have hhead : (sntlEncodeHeader (.ofNat recs.length) deviceId).length = 16 :=
    sntlEncodeHeader_length _ _
  have hbody : (recs.flatMap sntlEncodeRecord).length = recs.length * 24 := records_length recs
  rw [hsplit, ← List.drop_drop, List.drop_append_of_le_length hhead.ge,
    List.drop_of_length_le hhead.le, List.nil_append, List.drop_append_of_le_length (by omega),
    List.take_append_of_le_length (by rw [List.length_drop]; omega)]
  exact flatMap_chunk sntlEncodeRecord_length recs i hi

theorem wireFrame_readable (hlen : recs.length ≤ 65535) : Readable (wireFrame deviceId recs) := by
  have hbody := frameBody_length deviceId recs
  have hsize : (wireFrame deviceId recs).length = 16 + 24 * recs.length + 2 := by
    unfold wireFrame
    rw [List.length_append, hbody, enc_length]
  refine ⟨rfl, rfl, rfl, ?_, ?_⟩
  · rw [wireFrame_count hlen]
    exact hsize
  · -- the last two bytes are the CRC, and what is before them is its input
    have hcut : (wireFrame deviceId recs).length - 2 = (frameBody deviceId recs).length := by
      rw [hsize, hbody, Nat.add_sub_cancel]
    unfold u16At
    rw [hcut]
    unfold wireFrame
    rw [List.drop_left, List.take_left, List.take_of_length_le (by rw [enc_length]),
      dec_enc (UInt16.toNat_lt _), UInt16.ofNat_toNat]

theorem readId_wireFrame (hid : deviceId.length ≤ 8) (hnul : 0 ∉ deviceId) :
    readId (wireFrame deviceId recs) = deviceId := by
  obtain ⟨crc, -, hsplit, -⟩ := wireFrame_split deviceId recs
  have hbytes : ((wireFrame deviceId recs).drop 8).take 8 =
      deviceId ++ List.replicate (8 - deviceId.length) 0 := by
    have hpad : (deviceId ++ List.replicate (8 - deviceId.length) (0 : UInt8)).length = 8 := by
      rw [List.length_append, List.length_replicate]
      omega
    rw [hsplit, header_id hid hnul, List.append_assoc, List.drop_append_of_le_length (by rfl),
      List.drop_of_length_le (by rfl), List.nil_append, List.take_append_of_le_length hpad.ge,
      List.take_of_length_le hpad.le]
  unfold readId
  rw [hbytes]
  exact rdropWhile_padding hnul _

theorem readRecords_wireFrame (hlen : recs.length ≤ 65535) :
    readRecords (wireFrame deviceId recs) = recs := by
  unfold readRecords
  rw [wireFrame_count hlen]
  apply List.ext_getElem
  · rw [List.length_map, List.length_range]
  · intro i h1 h2
    rw [List.getElem_map, List.getElem_range, wireFrame_record i h2]
    exact readRecord_encode _

theorem readFrame_wireFrame (hid : deviceId.length ≤ 8) (hnul : 0 ∉ deviceId)
    (hlen : recs.length ≤ 65535) :
    readFrame (wireFrame deviceId recs) = some (deviceId, recs) := by
  unfold readFrame
  rw [if_pos (wireFrame_readable hlen), readId_wireFrame hid hnul, readRecords_wireFrame hlen]

/-- **The round trip.** A frame has the stated length and reads back as the id and the
records it was made of; so no two of them have one frame. Each record stands in its place,
and its first 14 bytes depend on the fields of version 2 alone. -/
theorem frame_round_trip (hid : deviceId.length ≤ 8) (hnul : 0 ∉ deviceId)
    (hlen : recs.length ≤ 65535) :
    (wireFrame deviceId recs).length = sntlFrameSize (.ofNat recs.length) ∧
      readFrame (wireFrame deviceId recs) = some (deviceId, recs) ∧
      (∀ (deviceId' : List UInt8) (recs' : List SntlRecord), deviceId'.length ≤ 8 →
        0 ∉ deviceId' → recs'.length ≤ 65535 →
        wireFrame deviceId' recs' = wireFrame deviceId recs →
        deviceId' = deviceId ∧ recs' = recs) ∧
      (∀ (i : ℕ) (hi : i < recs.length),
        ((wireFrame deviceId recs).drop (16 + 24 * i)).take 24 = sntlEncodeRecord recs[i]) ∧
      ∀ rec rec' : SntlRecord, rec.v2 = rec'.v2 →
        (sntlEncodeRecord rec).take 14 = (sntlEncodeRecord rec').take 14 := by
  refine ⟨?_, readFrame_wireFrame hid hnul hlen, ?_, wireFrame_record, ?_⟩
  · apply wireFrame_length
    omega
  · intro deviceId' recs' hid' hnul' hlen' heq
    have hread := readFrame_wireFrame hid' hnul' hlen'
    rw [heq, readFrame_wireFrame hid hnul hlen] at hread
    simp only [Option.some.injEq, Prod.mk.injEq] at hread
    exact ⟨hread.1.symm, hread.2.symm⟩
  · intro rec rec' h
    exact (encode_v2 rec rec').2 h

end Frame

/-- A cold night: -12.50 C, and no gas sensor. -/
def coldRecord : SntlRecord :=
  ⟨0x11223344, 0x55667788, 3, 27, 0x0403, 0x24, 100, 123, 456, -1250, 4512, sntlAqUnknownS⟩

theorem frame_round_trip_cold :
    readFrame (wireFrame [0x50, 0x52, 0x2D, 0x41] [coldRecord]) =
      some ([0x50, 0x52, 0x2D, 0x41], [coldRecord]) :=
  (frame_round_trip (by decide) (by decide) (by decide)).2.1

end PresenceNode
