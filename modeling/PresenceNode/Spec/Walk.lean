import PresenceNode.Spec.Decode

/-!
# The walks over a frame, with their 32-bit offsets (`tlv.c`, `on_frame` in `radar.c`)

`tlvFindPtr`, `tlvTargetsOut` and `tlvPresenceOut` are `tlv_find`, `tlv_targets` and
`tlv_presence` as loops over pointers: an offset is 32 bits wide and wraps, a pointer is an
offset from `frame`, a read outside the bytes a function was given is a fault, and what it
writes to `out` is the list of its writes in order. A loop that is not bounded by a counter
has fuel.

`listTypes` is the end of `on_frame`. It does not check the lengths it adds up, so what lies
after the frame in memory is part of its input.
-/

namespace PresenceNode

open LittleEndian

/-- Why a loop does not come to its end: it reads outside its bytes, or its fuel is spent. -/
inductive Fault where
  | outside
  | fuel
  deriving DecidableEq, Repr

/-- `rd_u32(p + off + i)`. -/
def rdAt (p : List UInt8) (off : UInt32) (i : ℕ) : Except Fault UInt32 :=
  match rdU32 p (off.toNat + i) with
  | some v => .ok v
  | none => .error .outside

/-! ## The header -/

/-- `struct tlv_header`. -/
structure TlvHeader where
  version : UInt32
  totalLen : UInt32
  platform : UInt32
  frameNo : UInt32
  cpuCycles : UInt32
  numDetected : UInt32
  numTlvs : UInt32
  subFrame : UInt32
  deriving DecidableEq, Repr

/-- `tlv_header_get`. -/
def tlvHeaderGet (frame : List UInt8) : Option TlvHeader := do
  let version ← rdU32 frame 8
  let totalLen ← rdU32 frame 12
  let platform ← rdU32 frame 16
  let frameNo ← rdU32 frame 20
  let cpuCycles ← rdU32 frame 24
  let numDetected ← rdU32 frame 28
  let numTlvs ← rdU32 frame 32
  let subFrame ← rdU32 frame 36
  return ⟨version, totalLen, platform, frameNo, cpuCycles, numDetected, numTlvs, subFrame⟩

/-! ## Lookup -/

/-- The loop of `tlv_find`: the pointer it returns and `*len_out`. -/
def tlvFindLoop (frame : List UInt8) (total type : UInt32) :
    ℕ → UInt32 → Except Fault (Option UInt32 × UInt32)
  | 0, _ => .error .fuel
  | fuel + 1, off =>
    if off + 8 ≤ total then do
      let t ← rdAt frame off 0
      let ln ← rdAt frame off 4
      -- a truncated or lying length
      if ln > total ∨ off + 8 + ln > total then return (none, 0)
      else if t = type then return (some (off + 8), ln)
      else tlvFindLoop frame total type fuel (off + (8 + ln))
    else return (none, 0)

/-- `tlv_find`. -/
def tlvFindPtr (frame : List UInt8) (type : UInt32) (fuel : ℕ) :
    Except Fault (Option UInt32 × UInt32) := do
  let total ← rdAt frame 12 0
  tlvFindLoop frame total type fuel 40

/-- The bytes behind what `tlv_find` returned. -/
def payloadAt (frame : List UInt8) (ptr : Option UInt32) (len : UInt32) : Option (List UInt8) :=
  ptr.map fun p => (frame.drop p.toNat).take len.toNat

/-! ## Payloads -/

/-- One target of `tlv_targets`, at an offset of the payload. -/
def targetOut (payload : List UInt8) (size off : UInt32) : Except Fault TlvTarget := do
  let tid ← rdAt payload off 0
  let x ← rdAt payload off 4
  let y ← rdAt payload off 8
  if size = 112 then
    let z ← rdAt payload off 12
    return ⟨tid, x, y, z⟩
  else return ⟨tid, x, y, 0⟩

/-- The loop of `tlv_targets`, with `n` targets written: the count it ends with and the rest
of its writes. -/
def tlvTargetsLoop (payload : List UInt8) (size len : UInt32) (max : ℕ) :
    ℕ → UInt32 → ℕ → Except Fault (ℕ × List (ℕ × TlvTarget))
  | 0, _, _ => .error .fuel
  | fuel + 1, off, n =>
    if off + size ≤ len ∧ n < max then do
      let t ← targetOut payload size off
      let (n', writes) ← tlvTargetsLoop payload size len max fuel (off + size) (n + 1)
      return (n', (n, t) :: writes)
    else return (n, [])

/-- `tlv_targets`. -/
def tlvTargetsOut (payload : Option (List UInt8)) (len : UInt32) (max fuel : ℕ) :
    Except Fault (ℕ × List (ℕ × TlvTarget)) :=
  match payload with
  | none => .ok (0, [])
  | some p =>
    if len = 0 then .ok (0, [])
    else if len % 112 = 0 then tlvTargetsLoop p 112 len max fuel 0 0
    else if len % 76 = 0 then tlvTargetsLoop p 76 len max fuel 0 0
    else .ok (0, [])

/-- `payload[i]`. -/
def byteAt (payload : List UInt8) (i : ℕ) : Except Fault UInt8 :=
  match payload[i]? with
  | some b => .ok b
  | none => .error .outside

/-- One zone of `tlv_presence`. -/
def zoneOut (payload : List UInt8) (len : UInt32) (z : ℕ) : Except Fault UInt8 :=
  let byteIdx : UInt32 := 1 + .ofNat (z / 4)
  if byteIdx < len then
    (byteAt payload byteIdx.toNat).map fun b => (b >>> .ofNat (2 * (z % 4))) &&& 3
  else .ok 0

/-- The loop of `tlv_presence`, with `left` zones to go from zone `z` on. -/
def tlvPresenceLoop (payload : List UInt8) (len : UInt32) :
    (left : ℕ) → (z : ℕ) → Except Fault (List (ℕ × UInt8))
  | 0, _ => .ok []
  | left + 1, z => do
    let state ← zoneOut payload len z
    let writes ← tlvPresenceLoop payload len left (z + 1)
    return (z, state) :: writes

/-- `tlv_presence`: the count and the writes. -/
def tlvPresenceOut (payload : Option (List UInt8)) (len : UInt32) (max : ℕ) :
    Except Fault (ℕ × List (ℕ × UInt8)) :=
  match payload with
  | none => .ok (0, [])
  | some p =>
    if len < 2 then .ok (0, [])
    else do
      let b ← byteAt p 0
      let n := min b.toNat max
      let writes ← tlvPresenceLoop p len n 0
      return (n, writes)

/-! ## The listing of the types -/

/-- `frame[i]`, with `junk` after the frame in memory. -/
def memAt (frame : List UInt8) (junk : ℕ → UInt8) (i : ℕ) : UInt8 := frame.getD i (junk i)

/-- Four bytes copied to a 32-bit variable. -/
def memU32 (frame : List UInt8) (junk : ℕ → UInt8) (i : ℕ) : UInt32 :=
  le4 (memAt frame junk i) (memAt frame junk (i + 1)) (memAt frame junk (i + 2))
    (memAt frame junk (i + 3))

/-- One round of a listing loop: the offset, and the type and length read there. -/
structure Visit where
  off : UInt32
  t : UInt32
  l : UInt32
  deriving DecidableEq, Repr

/-- The rounds of a listing loop, with `left` of `num_tlvs` to go. -/
def visits (frame : List UInt8) (junk : ℕ → UInt8) (total : UInt32) : ℕ → UInt32 → List Visit
  | 0, _ => []
  | left + 1, off =>
    if off + 8 ≤ total then
      let t := memU32 frame junk off.toNat
      let l := memU32 frame junk (off.toNat + 4)
      ⟨off, t, l⟩ :: visits frame junk total left (off + (8 + l))
    else []

/-- `BIT`. -/
def bit (n : UInt32) : UInt32 := 1 <<< n

/-- `mask`: a bit for each type listed. -/
def typesMask (rounds : List Visit) : UInt32 :=
  rounds.foldl (fun mask v => mask ||| bit ((v.t - 300) &&& 31)) 0

/-- The rounds of both loops of `on_frame`, and `types_seen` after them. -/
structure Listing where
  first : List Visit
  second : List Visit
  typesSeen : UInt32
  deriving DecidableEq, Repr

/-- The end of `on_frame`: the types are listed once more if one of them is new. -/
def listTypes (frame : List UInt8) (junk : ℕ → UInt8) (typesSeen : UInt32) : Option Listing := do
  let h ← tlvHeaderGet frame
  let rounds := visits frame junk h.totalLen h.numTlvs.toNat 40
  let mask := typesMask rounds
  if mask &&& ~~~typesSeen ≠ 0 then
    return ⟨rounds, visits frame junk h.totalLen h.numTlvs.toNat 40, typesSeen ||| mask⟩
  else return ⟨rounds, [], typesSeen⟩

end PresenceNode
