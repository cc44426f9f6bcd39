import PresenceNode.Proof.App
import PresenceNode.Spec.Device
import Mathlib.Data.Nat.Digits.Lemmas

/-!
# The device id is one string everywhere

* `readHex_printHex`: a printed number reads back.
* `deviceIdInit_length`, `zero_notMem_deviceIdInit`: the id has 8 characters, none of them NUL.
* `scanName_inj`: it tells devices apart by the last three bytes of their factory ids.
* `device_id_read`: the app finds the name it scanned in every frame it reads.
-/

namespace PresenceNode

/-! ## Hexadecimal digits -/

/-- The value of a digit. -/
def hexValue (c : UInt8) : ℕ := if c < 0x3A then c.toNat - 0x30 else c.toNat - 0x37

/-- The value of a string of digits. -/
def readHex (s : List UInt8) : ℕ := s.foldl (fun v c => 16 * v + hexValue c) 0

theorem hexValue_digit : ∀ d < 16, hexValue (hexDigit d) = d := by decide

theorem hexDigit_ne_zero : ∀ d < 16, hexDigit d ≠ 0 := by decide

theorem digits_lt {n d : ℕ} (h : d ∈ Nat.digits 16 n) : d < 16 := Nat.digits_lt_base (by decide) h

/-- Leading zeros do not count. -/
theorem readHex_zeros (k : ℕ) (s : List UInt8) :
    readHex (List.replicate k 0x30 ++ s) = readHex s := by
  unfold readHex
  rw [List.foldl_append]
  congr 1
  induction k with
  | zero => rfl
  | succ k ih =>
    rw [List.replicate_succ, List.foldl_cons]
    exact ih

theorem readHex_digits (ds : List ℕ) (h : ∀ d ∈ ds, d < 16) :
    readHex (ds.reverse.map hexDigit) = Nat.ofDigits 16 ds := by
  unfold readHex
  induction ds with
  | nil => rfl
  | cons d ds ih =>
    have hd := hexValue_digit d (h d List.mem_cons_self)
    have hds := ih fun d' hd' => h d' (List.mem_cons_of_mem _ hd')
    rw [List.reverse_cons, List.map_append, List.foldl_append, hds, List.map_singleton,
      List.foldl_cons, List.foldl_nil, hd, Nat.ofDigits_cons, Nat.add_comm]

/-- **A printed number reads back.** -/
theorem readHex_printHex (width : ℕ) (x : UInt32) : readHex (printHex width x) = x.toNat := by
  unfold printHex List.leftpad
  rw [readHex_zeros, readHex_digits _ fun d hd => digits_lt hd, Nat.ofDigits_digits]

theorem printHex_length {width : ℕ} {x : UInt32} (h : x.toNat < 16 ^ width) :
    (printHex width x).length = width := by
  have hle : (Nat.digits 16 x.toNat).length ≤ width :=
    (Nat.digits_length_le_iff (by decide) x.toNat).2 h
  unfold printHex
  rw [List.length_leftpad, List.length_map, List.length_reverse]
  exact max_eq_left hle

theorem zero_notMem_printHex (width : ℕ) (x : UInt32) : 0 ∉ printHex width x := by
  unfold printHex List.leftpad
  intro h
  rcases List.mem_append.1 h with hz | hd
  · have hne := List.eq_of_mem_replicate hz
    exact absurd hne (by decide)
  · obtain ⟨d, hd, hzero⟩ := List.mem_map.1 hd
    exact hexDigit_ne_zero d (digits_lt (List.mem_reverse.1 hd)) hzero

/-! ## The id -/

variable (hw : HwId)

theorem masked_lt (x : UInt32) : (x &&& 0xFFFFFF).toNat < 16 ^ 6 := by
  have hand : (x &&& 0xFFFFFF).toNat ≤ 0xFFFFFF := by
    rw [UInt32.toNat_and]
    exact Nat.and_le_right
  omega

/-- Nothing is cut off. -/
theorem deviceIdInit_eq : deviceIdInit hw = bleIdPrefix ++ printHex 6 (hw.tail &&& 0xFFFFFF) := by
  have hlen : (bleIdPrefix ++ printHex 6 (hw.tail &&& 0xFFFFFF)).length = sntlDeviceIdLen := by
    rw [List.length_append, printHex_length (masked_lt _)]
    rfl
  unfold deviceIdInit snprintf
  exact List.take_of_length_le hlen.le

theorem deviceIdInit_length : (deviceIdInit hw).length = sntlDeviceIdLen := by
  rw [deviceIdInit_eq, List.length_append, printHex_length (masked_lt _)]
  rfl

theorem zero_notMem_deviceIdInit : 0 ∉ deviceIdInit hw := by
  have hlead : (0 : UInt8) ∉ bleIdPrefix := by decide +kernel
  rw [deviceIdInit_eq, List.mem_append]
  exact not_or.2 ⟨hlead, zero_notMem_printHex _ _⟩

/-- **The id as the header wants it.** -/
def HwId.deviceId (hw : HwId) : DeviceId where
  chars := deviceIdInit hw
  length_le := (deviceIdInit_length hw).le
  nonzero := zero_notMem_deviceIdInit hw

theorem scanName_eq : scanName hw = deviceIdInit hw := by
  have hlen := deviceIdInit_length hw
  unfold scanName
  rw [List.take_append_of_le_length hlen.ge, List.take_of_length_le hlen.le]

theorem shifted_lt (b : UInt8) (k : UInt32) (hk : k.toNat ≤ 16) :
    (b.toUInt32 <<< k).toNat < 2 ^ 24 := by
  have hb := b.toNat_lt
  have hk32 : k.toNat % 32 = k.toNat := Nat.mod_eq_of_lt (by omega)
  have hpow : 2 ^ k.toNat ≤ 2 ^ 16 := Nat.pow_le_pow_right (by decide) hk
  rw [UInt32.toNat_shiftLeft, UInt8.toNat_toUInt32, hk32, Nat.shiftLeft_eq]
  refine lt_of_le_of_lt (Nat.mod_le _ _) ?_
  calc b.toNat * 2 ^ k.toNat ≤ b.toNat * 2 ^ 16 := Nat.mul_le_mul_left _ hpow
    _ < 2 ^ 24 := by omega

/-- The mask takes nothing off what three bytes hold. -/
theorem tail_masked : hw.tail &&& 0xFFFFFF = hw.tail := by
  have hlt : hw.tail.toNat < 2 ^ 24 := by
    cases hw with
    | failed => decide
    | bytes hw =>
      unfold HwId.tail
      simp only
      split_ifs with hshort
      · decide
      · rw [UInt32.toNat_or, UInt32.toNat_or]
        refine Nat.or_lt_two_pow (Nat.or_lt_two_pow ?_ ?_) ?_
        · exact shifted_lt _ 16 (by decide)
        · exact shifted_lt _ 8 (by decide)
        · rw [UInt8.toNat_toUInt32]
          exact (UInt8.toNat_lt _).trans (by decide)
  apply UInt32.toNat_inj.1
  have hmask : (0xFFFFFF : UInt32).toNat = 2 ^ 24 - 1 := rfl
  rw [UInt32.toNat_and, hmask, Nat.and_two_pow_sub_one_eq_mod, Nat.mod_eq_of_lt hlt]

/-- **Devices are told apart** by the last three bytes of their factory ids. -/
theorem scanName_inj (hw hw' : HwId) : scanName hw = scanName hw' ↔ hw.tail = hw'.tail := by
  constructor
  · intro h
    rw [scanName_eq, scanName_eq, deviceIdInit_eq, deviceIdInit_eq, tail_masked, tail_masked] at h
    have hread := congrArg readHex (List.append_cancel_left h)
    rw [readHex_printHex, readHex_printHex] at hread
    exact UInt32.toNat_inj.1 hread
  · intro h
    unfold scanName deviceIdInit
    rw [h]

/-- **The name and the frames agree.** Whatever the factory id is, the name in the scan response has
8 characters and no NUL; over every calm run, on every connection, each frame the app makes out
carries it; and two devices have the same name exactly if the same `tail` is made of their ids: the last
three bytes, or 0 of an id that is shorter or not to be had. -/
theorem device_id_read (hw : HwId) {evs : List SessionEvent}
    (hg : (sessionMachine (deviceIdInit hw)).Guarded Session.Calm .off evs) (m : ℕ) :
    (scanName hw).length = sntlDeviceIdLen ∧ 0 ∉ scanName hw ∧
      (∀ frame ∈ (((sessionMachine (deviceIdInit hw)).run .off evs).app m).1,
        ∃ recs, readFrame frame = some (scanName hw, recs)) ∧
      ∀ hw', scanName hw' = scanName hw ↔ hw'.tail = hw.tail := by
  refine ⟨?_, ?_, fun frame hf => ?_, fun hw' => scanName_inj hw' hw⟩
  · rw [scanName_eq]
    exact deviceIdInit_length hw
  · rw [scanName_eq]
    exact zero_notMem_deviceIdInit hw
  · have happ : Session.AppReads hw.deviceId _ m :=
      delivered_app (Session.framed_delivered (Session.session_sound hg).2 m)
    obtain ⟨c, -, -, recs, start, hread, -⟩ := happ.frames frame hf
    rw [scanName_eq]
    exact ⟨recs, hread⟩

/-- A board without a factory id, and a frame of its first answer. -/
theorem device_id_read_failed :
    ∃ frame ∈ (((sessionMachine (deviceIdInit .failed)).run .off (join ++ ask 5 ++ answer)).app 1).1,
      ∃ recs, readFrame frame = some (scanName .failed, recs) := by
  have hne : (((sessionMachine (deviceIdInit .failed)).run .off
      (join ++ ask 5 ++ answer)).app 1).1 ≠ [] := by decide +kernel
  obtain ⟨frame, hf⟩ := List.exists_mem_of_ne_nil _ hne
  exact ⟨frame, hf, (device_id_read .failed (by decide +kernel) 1).2.2.1 frame hf⟩

end PresenceNode
