import Mathlib.Data.Nat.Bitwise
import Mathlib.Tactic.Ring

/-!
# Little-endian byte strings

* `enc w n`: the `w` bytes of `n`, least significant first; `dec`: their value.
* `dec_enc`: a number that fits in `w` bytes reads back.
* `dec_le4`: four bytes put together by shifts and ors have the value `dec` gives.
-/

namespace LittleEndian

/-- The `w` bytes of `n`, least significant first. -/
def enc : ℕ → ℕ → List UInt8
  | 0, _ => []
  | w + 1, n => UInt8.ofNat n :: enc w (n / 256)

/-- The value of a byte string, least significant byte first. -/
def dec : List UInt8 → ℕ
  | [] => 0
  | b :: bs => b.toNat + 256 * dec bs

@[simp] theorem enc_length (w n : ℕ) : (enc w n).length = w := by
  induction w generalizing n with
  | zero => rfl
  | succ w ih => simp only [enc, List.length_cons, ih]

theorem dec_enc {w n : ℕ} (h : n < 256 ^ w) : dec (enc w n) = n := by
  induction w generalizing n with
  | zero => simp only [pow_zero] at h; simp only [enc, dec]; omega
  | succ w ih =>
    have hq : n / 256 < 256 ^ w := by rw [pow_succ] at h; omega
    simp only [enc, dec, ih hq, UInt8.toNat_ofNat']
    omega

/-- Four bytes put together by shifts and ors. -/
def le4 (b0 b1 b2 b3 : UInt8) : UInt32 :=
  b0.toUInt32 ||| (b1.toUInt32 <<< 8) ||| (b2.toUInt32 <<< 16) ||| (b3.toUInt32 <<< 24)

/-- Adding a high part to a low part that fits under it is or-ing them. -/
theorem or_shift {a b i : ℕ} (h : b < 2 ^ i) : b ||| (a <<< i) = b + a * 2 ^ i := by
  rw [Nat.lor_comm, ← Nat.shiftLeft_add_eq_or_of_lt h, Nat.shiftLeft_eq, Nat.add_comm]

theorem dec_le4 (b0 b1 b2 b3 : UInt8) : (le4 b0 b1 b2 b3).toNat = dec [b0, b1, b2, b3] := by
  have h0 := b0.toNat_lt
  have h1 := b1.toNat_lt
  have h2 := b2.toNat_lt
  have h3 := b3.toNat_lt
  have e1 : b1.toNat <<< 8 % 2 ^ 32 = b1.toNat <<< 8 := by
    rw [Nat.shiftLeft_eq]; exact Nat.mod_eq_of_lt (by omega)
  have e2 : b2.toNat <<< 16 % 2 ^ 32 = b2.toNat <<< 16 := by
    rw [Nat.shiftLeft_eq]; exact Nat.mod_eq_of_lt (by omega)
  have e3 : b3.toNat <<< 24 % 2 ^ 32 = b3.toNat <<< 24 := by
    rw [Nat.shiftLeft_eq]; exact Nat.mod_eq_of_lt (by omega)
  have s1 : b0.toNat ||| b1.toNat <<< 8 = b0.toNat + b1.toNat * 2 ^ 8 := or_shift (by omega)
  have s2 : (b0.toNat + b1.toNat * 2 ^ 8) ||| b2.toNat <<< 16 =
      b0.toNat + b1.toNat * 2 ^ 8 + b2.toNat * 2 ^ 16 := or_shift (by omega)
  have s3 : (b0.toNat + b1.toNat * 2 ^ 8 + b2.toNat * 2 ^ 16) ||| b3.toNat <<< 24 =
      b0.toNat + b1.toNat * 2 ^ 8 + b2.toNat * 2 ^ 16 + b3.toNat * 2 ^ 24 := or_shift (by omega)
  have e : (le4 b0 b1 b2 b3).toNat =
      b0.toNat ||| b1.toNat <<< 8 ||| b2.toNat <<< 16 ||| b3.toNat <<< 24 := by
    rw [← e1, ← e2, ← e3]
    simp [le4]
  rw [e, s1, s2, s3]
  simp only [dec]
  omega

end LittleEndian
