import PresenceNode.Spec.Store

/-!
# The air quality sensor (`sen5x.c`)

A command is written, and words come back with a CRC each. What the bus does is a
`Transfer`; nothing is assumed about it.
-/

namespace PresenceNode

def sen5xUnknownU : UInt16 := 0xFFFF
def sen5xUnknownS : Int16 := 0x7FFF

/-- **One transaction**: what the write of the command returns, what the read returns, and
the bytes it leaves. -/
structure Transfer where
  cmd : ℤ
  read : ℤ
  raw : ℕ → UInt8

/-- One bit of the CRC register. -/
def crc8Bit (crc : UInt8) : UInt8 :=
  if crc &&& 0x80 ≠ 0 then (crc <<< 1) ^^^ 0x31 else crc <<< 1

/-- `crc8`, of two bytes. -/
def crc8 (d0 d1 : UInt8) : UInt8 := crc8Bit^[8] (crc8Bit^[8] (0xFF ^^^ d0) ^^^ d1)

/-- The check vector of the data sheet. -/
example : crc8 0xBE 0xEF = 0x92 := by decide +kernel

namespace Transfer

/-- The CRC of word `i` is right. -/
def Checked (t : Transfer) (i : ℕ) : Prop :=
  crc8 (t.raw (3 * i)) (t.raw (3 * i + 1)) = t.raw (3 * i + 2)

instance (t : Transfer) (i : ℕ) : Decidable (t.Checked i) :=
  inferInstanceAs (Decidable (_ = _))

/-- Word `i`, high byte first. -/
def word (t : Transfer) (i : ℕ) : UInt16 :=
  ((t.raw (3 * i)).toUInt16 <<< 8) ||| (t.raw (3 * i + 1)).toUInt16

/-- **A transaction that succeeds**: both transfers, and the CRC of every word. -/
def Good (t : Transfer) (words : ℕ) : Prop :=
  t.cmd = 0 ∧ t.read = 0 ∧ ∀ i < words, t.Checked i

end Transfer

/-- `read_words`. -/
def readWords (t : Transfer) (words : ℕ) : Except ℤ (ℕ → UInt16) :=
  if t.cmd ≠ 0 then .error t.cmd
  else if t.read ≠ 0 then .error t.read
  else if ∀ i < words, t.Checked i then .ok t.word
  else .error (-eio)

/-- `struct sen5x_window`. -/
structure Sen5xWindow where
  pm25 : UInt16
  pm10 : UInt16
  temp : Int16
  rh : Int16
  voc : Int16
  alive : Bool
  deriving DecidableEq, Repr

/-- `acc_reset`. -/
def Sen5xWindow.unknown : Sen5xWindow :=
  ⟨sen5xUnknownU, sen5xUnknownU, sen5xUnknownS, sen5xUnknownS, sen5xUnknownS, false⟩

/-- The static variables `running` and `acc`. -/
structure Sen5x where
  running : Bool
  acc : Sen5xWindow
  deriving DecidableEq, Repr

/-- `sen5x_start`: whether the bus is ready, and what the start command returns. -/
def sen5xStart (ready : Bool) (cmd : ℤ) : ℤ × Sen5x :=
  if ready then if cmd ≠ 0 then (cmd, ⟨false, .unknown⟩) else (0, ⟨true, .unknown⟩)
  else (-enodev, ⟨false, .unknown⟩)

/-- The peak of two readings, of which either may be unknown. -/
def peak (held new : UInt16) : UInt16 :=
  if new ≠ 0xFFFF ∧ (held = sen5xUnknownU ∨ new > held) then new else held

/-- The latest of two readings, of which the new one may be unknown. -/
def latest (held : Int16) (new : UInt16) (reading : Int16) : Int16 :=
  if new ≠ 0xFFFF then reading else held

/-- What a poll makes of the eight words. -/
def Sen5xWindow.fold (acc : Sen5xWindow) (w : ℕ → UInt16) : Sen5xWindow where
  pm25 := peak acc.pm25 (w 1)
  pm10 := peak acc.pm10 (w 3)
  rh := latest acc.rh (w 4) (w 4).toInt16
  -- 1/200 C to 0.01 C
  temp := latest acc.temp (w 5) ((w 5).toInt16 / 2)
  voc := latest acc.voc (w 6) (w 6).toInt16
  alive := true

/-- `sen5x_poll`. -/
def sen5xPoll (s : Sen5x) (t : Transfer) : Sen5x :=
  if s.running then
    match readWords t 8 with
    | .error _ => s
    | .ok w => { s with acc := s.acc.fold w }
  else s

/-- The device status register, of two words. -/
def statusOf (w : ℕ → UInt16) : UInt32 := ((w 0).toUInt32 <<< 16) ||| (w 1).toUInt32

/-- FAN or LASER. -/
def statusFatal : UInt32 := 0x30

/-- `sen5x_window_take`; `t` is the status transaction, if it comes to one. -/
def sen5xWindowTake (s : Sen5x) (t : Transfer) : Sen5xWindow × Sen5x :=
  let acc :=
    if s.acc.alive then
      match readWords t 2 with
      | .error _ => s.acc
      | .ok st => if statusOf st &&& statusFatal ≠ 0 then { s.acc with alive := false } else s.acc
    else s.acc
  (acc, { s with acc := .unknown })

end PresenceNode
