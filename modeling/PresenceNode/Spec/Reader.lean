import PresenceNode.Spec.Frame
import Mathlib.Data.List.DropRight

/-!
# Reading a frame

What the format says to a reader (`frame.h`, the README): header 16 B, records of 24 B, CRC
2 B; integers little-endian, `temp`, `rh` and `voc` in two's complement, the device id zero
padded to 8. It is stated from the bytes, with none of the encoder's functions but the CRC.
-/

namespace PresenceNode

open LittleEndian

def u16At (bs : List UInt8) (off : ℕ) : UInt16 := .ofNat (dec ((bs.drop off).take 2))

def u32At (bs : List UInt8) (off : ℕ) : UInt32 := .ofNat (dec ((bs.drop off).take 4))

/-- The record in 24 bytes. -/
def readRecord (bs : List UInt8) : SntlRecord where
  seq := u32At bs 0
  ts := u32At bs 4
  headcount := bs.getD 8 0
  occS := bs.getD 9 0
  dwellS := u16At bs 10
  flags := bs.getD 12 0
  batt := bs.getD 13 0
  pm25 := u16At bs 14
  pm10 := u16At bs 16
  temp := (u16At bs 18).toInt16
  rh := (u16At bs 20).toInt16
  voc := (u16At bs 22).toInt16

/-- **What a reader accepts**: the magic, the version, the record size, a length that agrees
with the count, and the CRC. -/
structure Readable (bs : List UInt8) : Prop where
  magic : bs.take 4 = [0x53, 0x4E, 0x54, 0x4C]
  version : bs.getD 4 0 = 3
  recordSize : bs.getD 5 0 = 24
  length : bs.length = 16 + 24 * (u16At bs 6).toNat + 2
  crc : u16At bs (bs.length - 2) = sntlCrc16 0xFFFF (bs.take (bs.length - 2))

theorem readable_iff {bs : List UInt8} : Readable bs ↔
    bs.take 4 = [0x53, 0x4E, 0x54, 0x4C] ∧ bs.getD 4 0 = 3 ∧ bs.getD 5 0 = 24 ∧
      bs.length = 16 + 24 * (u16At bs 6).toNat + 2 ∧
      u16At bs (bs.length - 2) = sntlCrc16 0xFFFF (bs.take (bs.length - 2)) :=
  ⟨fun h => ⟨h.magic, h.version, h.recordSize, h.length, h.crc⟩,
    fun ⟨h1, h2, h3, h4, h5⟩ => ⟨h1, h2, h3, h4, h5⟩⟩

instance (bs : List UInt8) : Decidable (Readable bs) := decidable_of_iff' _ readable_iff

/-- The id in the header, without its padding. -/
def readId (bs : List UInt8) : List UInt8 := ((bs.drop 8).take 8).rdropWhile (· = 0)

/-- The records, in order. -/
def readRecords (bs : List UInt8) : List SntlRecord :=
  (List.range (u16At bs 6).toNat).map fun i => readRecord ((bs.drop (16 + 24 * i)).take 24)

/-- **Reading a frame.** -/
def readFrame (bs : List UInt8) : Option (List UInt8 × List SntlRecord) :=
  if Readable bs then some (readId bs, readRecords bs) else none

/-- The record of version 2. -/
structure SntlRecordV2 where
  seq : UInt32
  ts : UInt32
  headcount : UInt8
  occS : UInt8
  dwellS : UInt16
  flags : UInt8
  batt : UInt8
  deriving DecidableEq, Repr

/-- The part of a record that version 2 had. -/
def SntlRecord.v2 (rec : SntlRecord) : SntlRecordV2 :=
  ⟨rec.seq, rec.ts, rec.headcount, rec.occS, rec.dwellS, rec.flags, rec.batt⟩

end PresenceNode
