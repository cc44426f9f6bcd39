import PresenceNode.Lib.LittleEndian
import Mathlib.Data.Vector.Basic

/-!
# The streaming reassembler (`tlv.c`, `tlv.h`)

`tlvPush` takes one byte of the UART stream and says whether `buf` now holds a whole
frame. Array accesses are checked: `none` is an access out of bounds, which C leaves
undefined, so a theorem that a call is `some` says every access was in bounds.
-/

namespace PresenceNode

open LittleEndian

abbrev tlvMagicLen : ℕ := 8
abbrev tlvHdrLen : ℕ := 40
abbrev tlvMaxFrame : ℕ := 2048

/-- `{0x0102, 0x0304, 0x0506, 0x0708}`, little-endian on the wire. -/
def tlvMagic : Vector UInt8 tlvMagicLen := #v[2, 1, 4, 3, 6, 5, 8, 7]

/-- `struct tlv_reasm`; `matched` is the field `match`. -/
structure Reasm where
  buf : Vector UInt8 tlvMaxFrame
  len : ℕ
  want : ℕ
  matched : ℕ

/-- A static reassembler before its first reset. -/
def Reasm.zero : Reasm := ⟨Vector.replicate tlvMaxFrame 0, 0, 0, 0⟩

/-- `buf[0..len)`, what the caller reads when a push returns 1. -/
def Reasm.frame (r : Reasm) : List UInt8 := r.buf.toList.take r.len

def tlvReset (r : Reasm) : Reasm := { r with len := 0, want := 0, matched := 0 }

/-- The byte that breaks a match may itself begin a new one. -/
def restart (byte : UInt8) : ℕ := if byte = tlvMagic[0] then 1 else 0

/-- The branch of `tlv_push` that hunts for the magic word. -/
def tlvHunt (r : Reasm) (byte : UInt8) : Option (Reasm × Bool) :=
  match tlvMagic[r.matched]? with
  | none => none
  | some m =>
    if byte = m then
      if r.matched + 1 = tlvMagicLen then
        some (⟨tlvMagic ++ r.buf.drop tlvMagicLen, tlvMagicLen, 0, 0⟩, false)
      else some ({ r with matched := r.matched + 1 }, false)
    else some ({ r with matched := restart byte }, false)

/-- The end of `tlv_push`: is the frame complete? -/
def tlvComplete (r : Reasm) : Reasm × Bool :=
  if r.len < r.want then (r, false) else ({ r with len := r.want, want := 0 }, true)

/-- `tlv_push` once the byte is stored: read `totalPacketLen` when the header is in. -/
def tlvStored (r : Reasm) : Reasm × Bool :=
  if r.want = 0 then
    if r.len < tlvHdrLen then (r, false)
    else
      let want := (le4 r.buf[12] r.buf[13] r.buf[14] r.buf[15]).toNat
      -- a bogus length resyncs on the next magic
      if want < tlvHdrLen ∨ tlvMaxFrame < want then (tlvReset { r with want := want }, false)
      else tlvComplete { r with want := want }
  else tlvComplete r

/-- `tlv_push`. -/
def tlvPush (r : Reasm) (byte : UInt8) : Option (Reasm × Bool) :=
  if r.len = 0 then tlvHunt r byte
  else if h : r.len < tlvMaxFrame then
    some (tlvStored { r with buf := r.buf.set r.len byte, len := r.len + 1 })
  else none

/-- What `radar_thread` does with a byte: push it, and on 1 hand the frame on and reset. -/
def feedByte (r : Reasm) (byte : UInt8) : Option (Reasm × Option (List UInt8)) :=
  match tlvPush r byte with
  | none => none
  | some (r', true) => some (tlvReset r', some r'.frame)
  | some (r', false) => some (r', none)

/-- Feed a stream byte by byte; the outputs stand at the bytes that made them. -/
def feed : Reasm → List UInt8 → Option (Reasm × List (Option (List UInt8)))
  | r, [] => some (r, [])
  | r, b :: bs => do
    let (r, o) ← feedByte r b
    let (r, os) ← feed r bs
    return (r, o :: os)

end PresenceNode
