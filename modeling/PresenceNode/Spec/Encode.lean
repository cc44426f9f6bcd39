import PresenceNode.Lib.Chain
import PresenceNode.Spec.Walk

/-!
# What the sensor sends (`tlv.h`, `build_frame` in `tests/test_tlv.c`)

The layouts are those in the comments of `tlv.h`; `buildFrame` is the test's `build_frame` for
any header fields and any TLVs. All words are little-endian, and a float is its bits.
-/

namespace PresenceNode

open LittleEndian

/-- `put_u32`. -/
def putU32 (v : UInt32) : List UInt8 := enc 4 v.toNat

/-- `put_u32` for each word. -/
def putU32s (words : List UInt32) : List UInt8 := (words.map putU32).flatten

/-- The header fields a sender chooses; the length is patched in. -/
structure FrameFields where
  version : UInt32
  platform : UInt32
  frameNo : UInt32
  cpuCycles : UInt32
  numDetected : UInt32
  numTlvs : UInt32
  subFrame : UInt32
  deriving DecidableEq, Repr

/-- The header that a frame of `total` bytes with these fields has. -/
def FrameFields.header (f : FrameFields) (total : UInt32) : TlvHeader :=
  ⟨f.version, total, f.platform, f.frameNo, f.cpuCycles, f.numDetected, f.numTlvs, f.subFrame⟩

/-- The eight words of a header, in their order. -/
def TlvHeader.words (h : TlvHeader) : List UInt32 :=
  [h.version, h.totalLen, h.platform, h.frameNo, h.cpuCycles, h.numDetected, h.numTlvs,
    h.subFrame]

/-- A TLV: its type, its length and its payload. -/
def putTlv (it : Item UInt8 UInt32) : List UInt8 :=
  putU32s [it.type, .ofNat it.payload.length] ++ it.payload

/-- TLVs, one after another. -/
def putTlvs (tlvs : List (Item UInt8 UInt32)) : List UInt8 := (tlvs.map putTlv).flatten

/-- `build_frame`. -/
def buildFrame (f : FrameFields) (tlvs : List (Item UInt8 UInt32)) : List UInt8 :=
  tlvMagic.toList ++
    putU32s (f.header (.ofNat (tlvHdrLen + (putTlvs tlvs).length))).words ++ putTlvs tlvs

/-! ## Payloads -/

/-- A target as the tracker sends it: what is decoded of it, and `n` words that are not. -/
structure SentTarget (n : ℕ) where
  target : TlvTarget
  others : Vector UInt32 n

/-- GTRACK_3D: `u32 tid` and 27 floats. -/
def putTarget3d (t : SentTarget 24) : List UInt8 :=
  putU32s ([t.target.tid, t.target.x, t.target.y, t.target.z] ++ t.others.toList)

/-- GTRACK_2D: `u32 tid` and 18 floats, no `z`. -/
def putTarget2d (t : SentTarget 16) : List UInt8 :=
  putU32s ([t.target.tid, t.target.x, t.target.y] ++ t.others.toList)

/-- The zones that the enhanced presence payload has room to count: a state of two bits each. -/
abbrev Zones := { states : List (Fin 4) // states.length < 256 }

/-- Four zones in a byte, from the LSB up. -/
def packZones (states : List (Fin 4)) (i : ℕ) : UInt8 :=
  let s := fun j => (states.getD (4 * i + j) 0).val
  .ofNat (s 0 + 4 * s 1 + 16 * s 2 + 64 * s 3)

/-- The enhanced presence payload: the count, and then the zones. -/
def putZones (zones : Zones) : List UInt8 :=
  .ofNat zones.1.length ::
    (List.range ((zones.1.length + 3) / 4)).map (packZones zones.1)

end PresenceNode
