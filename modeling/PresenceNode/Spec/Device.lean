import PresenceNode.Spec.App
import PresenceNode.Spec.Cli
import Mathlib.Data.Nat.Digits.Defs

/-!
# The device id (`ble.c`, `ble.h`)

`device_id_init` prints the last three bytes of the factory id behind a prefix. The string goes into
the scan response and into the header of every frame.
-/

namespace PresenceNode

def bleIdPrefix : List UInt8 := ascii "PR"

/-- An upper-case hexadecimal digit. -/
def hexDigit (d : ℕ) : UInt8 := if d < 10 then .ofNat (0x30 + d) else .ofNat (0x41 + (d - 10))

/-- `%0<width>X`, for a positive width. -/
def printHex (width : ℕ) (x : UInt32) : List UInt8 :=
  ((Nat.digits 16 x.toNat).reverse.map hexDigit).leftpad width 0x30

/-- What `snprintf` leaves of a string in a buffer of `size` bytes, without the NUL. -/
def snprintf (size : ℕ) (s : List UInt8) : List UInt8 := s.take (size - 1)

/-- What `hwinfo_get_device_id` answers: up to 8 bytes, or an error. -/
inductive HwId where
  | bytes (hw : { hw : List UInt8 // hw.length ≤ 8 })
  | failed

/-- `tail` in `device_id_init`. -/
def HwId.tail : HwId → UInt32
  | .failed => 0
  | .bytes hw =>
    if hw.1.length < 3 then 0
    else
      ((hw.1.getD (hw.1.length - 3) 0).toUInt32 <<< 16) |||
        ((hw.1.getD (hw.1.length - 2) 0).toUInt32 <<< 8) |||
        (hw.1.getD (hw.1.length - 1) 0).toUInt32

/-- `device_id_init`: the string in `device_id`. -/
def deviceIdInit (hw : HwId) : List UInt8 :=
  snprintf (sntlDeviceIdLen + 1) (bleIdPrefix ++ printHex 6 (hw.tail &&& 0xFFFFFF))

/-- **The name in the scan response**: the first 8 bytes of the array `device_id`. -/
def scanName (hw : HwId) : List UInt8 :=
  (deviceIdInit hw ++ List.replicate (sntlDeviceIdLen + 1 - (deviceIdInit hw).length) 0).take
    sntlDeviceIdLen

/-- The id in the README. -/
example : deviceIdInit (.bytes ⟨[0x11, 0x22, 0xBC, 0x5A, 0x69], by decide⟩) = ascii "PRBC5A69" := by
  decide +kernel

end PresenceNode
