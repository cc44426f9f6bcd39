import PresenceNode.Lib.LittleEndian

/-!
# The wire frame (`frame.c`, `frame.h`)

Header 16 B, then 24 B for each record, then a CRC over both. All integers are
little-endian. `sntlDumpRange` decides what a dump answers with.
-/

namespace PresenceNode

open LittleEndian

abbrev sntlRecordSize : ℕ := 24
abbrev sntlHeaderSize : ℕ := 16
abbrev sntlCrcSize : ℕ := 2
abbrev sntlDeviceIdLen : ℕ := 8

def sntlAqUnknownU : UInt16 := 0xFFFF
def sntlAqUnknownS : Int16 := 0x7FFF

def sntlFlagSensorFault : UInt8 := 0x01
def sntlFlagRtcUnset : UInt8 := 0x04
def sntlFlagNoTracker : UInt8 := 0x20
def sntlFlagAqFault : UInt8 := 0x40

/-- `struct sntl_record`. -/
structure SntlRecord where
  seq : UInt32
  ts : UInt32
  headcount : UInt8
  occS : UInt8
  dwellS : UInt16
  flags : UInt8
  batt : UInt8
  pm25 : UInt16
  pm10 : UInt16
  temp : Int16
  rh : Int16
  voc : Int16
  deriving DecidableEq, Repr

/-- One bit of the CRC register. -/
def crcBit (crc : UInt16) : UInt16 :=
  if crc &&& 0x8000 ≠ 0 then (crc <<< 1) ^^^ 0x1021 else crc <<< 1

/-- One byte of the CRC register. -/
def crcByte (crc : UInt16) (b : UInt8) : UInt16 := crcBit^[8] (crc ^^^ (b.toUInt16 <<< 8))

/-- `sntl_crc16`. -/
def sntlCrc16 (seed : UInt16) (data : List UInt8) : UInt16 := data.foldl crcByte seed

/-- `sntl_encode_header`; the characters of `device_id` up to a NUL, zero padded. -/
def sntlEncodeHeader (recordCount : UInt16) (deviceId : List UInt8) : List UInt8 :=
  let id := (deviceId.take sntlDeviceIdLen).takeWhile (· ≠ 0)
  -- "SNTL", version 3, record size, record count
  [0x53, 0x4E, 0x54, 0x4C, 3, 24, recordCount.toUInt8, (recordCount >>> 8).toUInt8] ++
    id ++ List.replicate (sntlDeviceIdLen - id.length) 0

/-- `sntl_encode_record`. -/
def sntlEncodeRecord (rec : SntlRecord) : List UInt8 :=
  [rec.seq.toUInt8, (rec.seq >>> 8).toUInt8, (rec.seq >>> 16).toUInt8, (rec.seq >>> 24).toUInt8,
   rec.ts.toUInt8, (rec.ts >>> 8).toUInt8, (rec.ts >>> 16).toUInt8, (rec.ts >>> 24).toUInt8,
   rec.headcount, rec.occS,
   rec.dwellS.toUInt8, (rec.dwellS >>> 8).toUInt8,
   rec.flags, rec.batt,
   rec.pm25.toUInt8, (rec.pm25 >>> 8).toUInt8,
   rec.pm10.toUInt8, (rec.pm10 >>> 8).toUInt8,
   rec.temp.toUInt16.toUInt8, (rec.temp.toUInt16 >>> 8).toUInt8,
   rec.rh.toUInt16.toUInt8, (rec.rh.toUInt16 >>> 8).toUInt8,
   rec.voc.toUInt16.toUInt8, (rec.voc.toUInt16 >>> 8).toUInt8]

/-- `sntl_frame_size`. -/
def sntlFrameSize (recordCount : UInt16) : ℕ :=
  sntlHeaderSize + recordCount.toNat * sntlRecordSize + sntlCrcSize

/-- `sntl_parse_cmd`: the first seq of a valid dump command. -/
def sntlParseCmd : List UInt8 → Option UInt32
  | [0x01, b1, b2, b3, b4] => some (le4 b1 b2 b3 b4)
  | _ => none

/-- `sntl_dump_range`: how many records, and the first seq to send. -/
def sntlDumpRange (firstSeq oldestSeq nextSeq : UInt32) : UInt16 × UInt32 :=
  let start := if firstSeq > oldestSeq then firstSeq else oldestSeq
  if start ≥ nextSeq then (0, nextSeq)
  else
    let count := nextSeq - start
    -- `recordCount` is a `uint16_t` on the wire
    let count := if count > 0xFFFF then 0xFFFF else count
    (count.toUInt16, start)

/-- Header and records. -/
def frameBody (deviceId : List UInt8) (recs : List SntlRecord) : List UInt8 :=
  sntlEncodeHeader (.ofNat recs.length) deviceId ++ recs.flatMap sntlEncodeRecord

/-- **One frame**: header, records, and the little-endian CRC over both. -/
def wireFrame (deviceId : List UInt8) (recs : List SntlRecord) : List UInt8 :=
  frameBody deviceId recs ++ enc 2 (sntlCrc16 0xFFFF (frameBody deviceId recs)).toNat

/-- The CRC's check vector, "123456789". -/
example : sntlCrc16 0xFFFF [0x31, 0x32, 0x33, 0x34, 0x35, 0x36, 0x37, 0x38, 0x39] = 0x29B1 := by
  decide +kernel

/-! ## Sizes and chaining -/

/-- **The CRC chains**: a frame can be summed in pieces. -/
theorem sntlCrc16_append (seed : UInt16) (a b : List UInt8) :
    sntlCrc16 seed (a ++ b) = sntlCrc16 (sntlCrc16 seed a) b := List.foldl_append

theorem sntlEncodeHeader_length (n : UInt16) (id : List UInt8) :
    (sntlEncodeHeader n id).length = sntlHeaderSize := by
  have h1 : ((id.take sntlDeviceIdLen).takeWhile (· ≠ 0)).length ≤ (id.take sntlDeviceIdLen).length :=
    (List.takeWhile_prefix _).length_le
  have h2 : (id.take sntlDeviceIdLen).length ≤ sntlDeviceIdLen := List.length_take_le _ _
  unfold sntlEncodeHeader
  simp only [List.length_append, List.length_replicate, List.length_cons, List.length_nil]
  simp only [sntlDeviceIdLen, sntlHeaderSize] at *
  omega

@[simp] theorem sntlEncodeRecord_length (rec : SntlRecord) :
    (sntlEncodeRecord rec).length = sntlRecordSize := rfl

/-- **What a dump answers with**: at most 65535 seqs, from the asked one or the oldest
held, all below the next one to be handed out. -/
theorem sntlDumpRange_spec (firstSeq oldestSeq nextSeq : UInt32) :
    (sntlDumpRange firstSeq oldestSeq nextSeq).2.toNat +
        (sntlDumpRange firstSeq oldestSeq nextSeq).1.toNat ≤ nextSeq.toNat ∧
      (sntlDumpRange firstSeq oldestSeq nextSeq).1.toNat =
        min 65535 (nextSeq.toNat - max firstSeq.toNat oldestSeq.toNat) := by
  have hn := nextSeq.toNat_lt
  unfold sntlDumpRange
  simp only [GT.gt, GE.ge]
  have hstart : (if oldestSeq < firstSeq then firstSeq else oldestSeq).toNat =
      max firstSeq.toNat oldestSeq.toNat := by
    split
    · rename_i h; rw [UInt32.lt_iff_toNat_lt] at h; omega
    · rename_i h; rw [UInt32.lt_iff_toNat_lt] at h; omega
  set start := if oldestSeq < firstSeq then firstSeq else oldestSeq
  by_cases h : nextSeq ≤ start
  · rw [if_pos h]
    rw [UInt32.le_iff_toNat_le] at h
    simp only [UInt16.toNat_zero]
    omega
  · rw [if_neg h]
    rw [UInt32.le_iff_toNat_le] at h
    have hsub : (nextSeq - start).toNat = nextSeq.toNat - start.toNat :=
      UInt32.toNat_sub_of_le _ _ (UInt32.le_iff_toNat_le.2 (by omega))
    simp only [UInt32.lt_iff_toNat_lt]
    split
    · rename_i hc
      have : (0xFFFF : UInt32).toNat = 65535 := rfl
      have : (0xFFFF : UInt32).toUInt16.toNat = 65535 := rfl
      omega
    · rename_i hc
      have : (0xFFFF : UInt32).toNat = 65535 := rfl
      rw [UInt32.toNat_toUInt16]
      omega

end PresenceNode
