import PresenceNode.Spec.Tlv
import PresenceNode.Spec.Radar

/-!
# What a frame says (`tlv.c`, `on_frame` in `radar.c`)

The frame is `buf[0..len)` as the reassembler hands it over. A read past its end is `none`.
Its `totalPacketLen` is at most 2048, so no offset comes near a wrap and offsets are plain
numbers.
-/

namespace PresenceNode

open LittleEndian

def tlvTargetList : UInt32 := 308
def tlvEnhancedPresence : UInt32 := 315
def tlvZoneNone : UInt8 := 0

/-- `rd_u32`. -/
def rdU32 (bs : List UInt8) (off : ℕ) : Option UInt32 :=
  match bs.drop off with
  | b0 :: b1 :: b2 :: b3 :: _ => some (le4 b0 b1 b2 b3)
  | _ => none

/-- The loop of `tlv_find`, at the offset of a TLV: the payload of the first one of the
type, if there is one. -/
def tlvFindFrom (frame : List UInt8) (total : ℕ) (type : UInt32) (off : ℕ) :
    Option (Option (List UInt8)) :=
  if h : off + 8 ≤ total then do
    let t ← rdU32 frame off
    let ln ← rdU32 frame (off + 4)
    -- a truncated or lying length
    if ln.toNat > total ∨ off + 8 + ln.toNat > total then some none
    else if t = type then some (some ((frame.drop (off + 8)).take ln.toNat))
    else tlvFindFrom frame total type (off + (8 + ln.toNat))
  else some none
termination_by total - off

/-- `tlv_find`. -/
def tlvFind (frame : List UInt8) (type : UInt32) : Option (Option (List UInt8)) := do
  let total ← rdU32 frame 12
  tlvFindFrom frame total.toNat type tlvHdrLen

/-- `struct tlv_target`; the coordinates are the bits of a `float`. -/
structure TlvTarget where
  tid : UInt32
  x : UInt32
  y : UInt32
  z : UInt32
  deriving DecidableEq, Repr

def target3dSize : ℕ := 112
def target2dSize : ℕ := 76

/-- One target; a 2D one has no `z`. -/
def targetAt (size : ℕ) (t : List UInt8) : Option TlvTarget := do
  let tid ← rdU32 t 0
  let x ← rdU32 t 4
  let y ← rdU32 t 8
  let z ← if size = target3dSize then rdU32 t 12 else some 0
  return ⟨tid, x, y, z⟩

/-- The loop of `tlv_targets`: as many whole targets as there are, and room for. -/
def targetsOf (size : ℕ) : (max : ℕ) → List UInt8 → Option { ts : List TlvTarget // ts.length ≤ max }
  | 0, _ => some ⟨[], Nat.le_refl _⟩
  | max + 1, payload =>
    if size ≤ payload.length then do
      let t ← targetAt size payload
      let ts ← targetsOf size max (payload.drop size)
      return ⟨t :: ts.1, Nat.succ_le_succ ts.2⟩
    else some ⟨[], Nat.zero_le _⟩

/-- `tlv_targets`. -/
def tlvTargets (payload : List UInt8) (max : ℕ) : Option { ts : List TlvTarget // ts.length ≤ max } :=
  if payload.length = 0 then some ⟨[], Nat.zero_le _⟩
  else if payload.length % target3dSize = 0 then targetsOf target3dSize max payload
  else if payload.length % target2dSize = 0 then targetsOf target2dSize max payload
  else some ⟨[], Nat.zero_le _⟩

/-- `tlv_presence`: the states of the zones, two bits each from the second byte on. -/
def tlvPresence (payload : List UInt8) (max : ℕ) : List UInt8 :=
  if payload.length < 2 then []
  else (List.range (min (payload.getD 0 0).toNat max)).map fun z =>
    if 1 + z / 4 < payload.length
    then (payload.getD (1 + z / 4) 0 >>> .ofNat (2 * (z % 4))) &&& 3 else 0

theorem zone_le : 1 ≤ radarMaxTargets := by decide

/-- What `on_frame` makes of a frame before it takes the lock: the targets if there is a
list of them, else whether any presence zone is not at rest. -/
def decided (frame : List UInt8) : Option Decided := do
  match ← tlvFind frame tlvTargetList with
  | some payload =>
    let ts ← tlvTargets payload radarMaxTargets
    return ⟨ts.1.length, true, ts.2⟩
  | none =>
    match ← tlvFind frame tlvEnhancedPresence with
    | some payload =>
      if (tlvPresence payload 8).any (· ≠ tlvZoneNone) then return ⟨1, false, zone_le⟩
      else return ⟨0, false, Nat.zero_le _⟩
    | none => return ⟨0, false, Nat.zero_le _⟩

/-- Without a target list the count is a floor of 0 or 1. -/
theorem decided_floor {frame : List UInt8} {d : Decided} (h : decided frame = some d)
    (ht : d.tracker = false) : d.n ≤ 1 := by
  unfold decided at h
  simp only [Option.bind_eq_bind, Option.bind_eq_some_iff, Option.pure_def] at h
  obtain ⟨found, -, h⟩ := h
  cases found with
  | some payload =>
    simp only [Option.bind_eq_some_iff, Option.some.injEq] at h
    obtain ⟨ts, -, rfl⟩ := h
    simp at ht
  | none =>
    simp only [Option.bind_eq_some_iff] at h
    obtain ⟨zones, -, h⟩ := h
    cases zones with
    | none =>
      simp only [Option.some.injEq] at h
      rw [← h]
      exact Nat.zero_le _
    | some payload =>
      simp only at h
      split_ifs at h
      · simp only [Option.some.injEq] at h
        rw [← h]
      · simp only [Option.some.injEq] at h
        rw [← h]
        exact Nat.zero_le _

end PresenceNode
