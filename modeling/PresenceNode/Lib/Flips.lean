import PresenceNode.Lib.Crc
import Mathlib.Algebra.Polynomial.RingDivision
import Mathlib.GroupTheory.OrderOfElement
import Mathlib.RingTheory.AdjoinRoot

/-!
# Flipped bits and cyclic redundancy checks

Two bit strings of one length differ by `diff`, in `flips` places.

* `crc_eq_iff`: two messages have one register iff the generator divides their difference.
* `crc_ne_of_odd`: an odd number of flips is found, if the generator has an even number of terms.
* `period`, `crc_ne_of_two`: two flips are found up to the order of `X` modulo the generator.
* `crc_eq_iff_apart`: and are missed exactly if they are a multiple of it apart.
* `expMod`, `period_eq`: that order, from powers computed in the register.
-/

namespace Crc

open Polynomial

/-! ## Differences -/

/-- Where two strings differ. -/
def diff (xs ys : List Bool) : List Bool := List.zipWith xor xs ys

/-- In how many places they do. -/
def flips (xs ys : List Bool) : ℕ := (diff xs ys).count true

theorem diff_length {xs ys : List Bool} (h : xs.length = ys.length) :
    (diff xs ys).length = xs.length := by
  rw [diff, List.length_zipWith, h, Nat.min_self]

theorem flips_append {xs ys xs' ys' : List Bool} (h : xs.length = ys.length) :
    flips (xs ++ xs') (ys ++ ys') = flips xs ys + flips xs' ys' := by
  unfold flips diff
  rw [List.zipWith_append h, List.count_append]

theorem eq_of_flips {xs ys : List Bool} (h : xs.length = ys.length) (hf : flips xs ys = 0) :
    xs = ys := by
  induction xs generalizing ys with
  | nil => exact (List.length_eq_zero_iff.1 h.symm).symm
  | cons x xs ih =>
    cases ys with
    | nil => simp at h
    | cons y ys =>
      have hcons : diff (x :: xs) (y :: ys) = xor x y :: diff xs ys := rfl
      rw [flips, hcons, List.count_cons] at hf
      obtain ⟨htail, hhead⟩ := Nat.add_eq_zero_iff.1 hf
      have hxy : x = y := by
        cases x <;> cases y <;> simp_all
      rw [hxy, ih (by simpa using h) htail]

theorem bitPoly_diff {xs ys : List Bool} (h : xs.length = ys.length) :
    bitPoly (diff xs ys) = bitPoly xs + bitPoly ys := by
  induction xs generalizing ys with
  | nil =>
    rw [List.length_eq_zero_iff.1 h.symm]
    simp [diff, bitPoly]
  | cons x xs ih =>
    cases ys with
    | nil => simp at h
    | cons y ys =>
      have hlen : xs.length = ys.length := by simpa using h
      have hcons : diff (x :: xs) (y :: ys) = xor x y :: diff xs ys := rfl
      have hbit : ((xor x y).toNat : ZMod 2) = x.toNat + y.toNat := by
        cases x <;> cases y <;> decide
      rw [hcons]
      simp only [bitPoly]
      rw [ih hlen, diff_length hlen, hbit, ← hlen, C_add]
      ring

variable {w u : ℕ} {g : BitVec w}

/-- The generator divides the shifted difference of messages with one register. -/
theorem crc_eq_iff_shifted (hu : u ≤ w) (s : BitVec w) {a b : List (BitVec u)}
    (hlen : a.length = b.length) :
    crc g s a = crc g s b ↔ genPoly g ∣ bitPoly (diff (msgBits a) (msgBits b)) * X ^ w := by
  have hbits : (msgBits a).length = (msgBits b).length := by
    rw [msgBits_length, msgBits_length, hlen]
  have hpoly : crc g s a = crc g s b ↔ regPoly (crc g s a) - regPoly (crc g s b) = 0 :=
    ⟨fun h => by rw [h, sub_self], fun h => regPoly_inj (sub_eq_zero.1 h)⟩
  rw [hpoly, crc_poly hu, crc_poly hu, ← sub_modByMonic, modByMonic_eq_zero_iff_dvd (genPoly_monic g),
    hlen, add_sub_add_right_eq_sub, ← sub_mul, bitPoly_diff hbits, CharTwo.sub_eq_add]

/-- **Messages with one register** differ by a multiple of the generator. -/
theorem crc_eq_iff (hu : u ≤ w) (hg : g.getLsbD 0 = true) (s : BitVec w) {a b : List (BitVec u)}
    (hlen : a.length = b.length) :
    crc g s a = crc g s b ↔ genPoly g ∣ bitPoly (diff (msgBits a) (msgBits b)) := by
  rw [crc_eq_iff_shifted hu s hlen]
  exact ⟨(genPoly_coprime hg w).dvd_of_dvd_mul_right, fun h => dvd_mul_of_dvd_left h _⟩

theorem regPoly_zero : regPoly (0 : BitVec w) = 0 := by
  ext n
  simp [regPoly_coeff]

/-- A register that is fed its own bits is cleared. -/
theorem crc_self (hu : u ≤ w) (g v : BitVec w) {t : List (BitVec u)} (ht : msgBits t = bits v) :
    crc g v t = 0 := by
  have hlen : u * t.length = w := by rw [← msgBits_length, ht, bits_length]
  apply regPoly_inj
  rw [crc_poly hu, ht, hlen, regPoly_zero, ← add_mul]
  have hself : bitPoly (bits v) + regPoly v = 0 := CharTwo.add_self_eq_zero _
  rw [hself, zero_mul, zero_modByMonic]

/-! ## An odd number -/

theorem eval_bitPoly (bs : List Bool) : (bitPoly bs).eval 1 = (bs.count true : ZMod 2) := by
  induction bs with
  | nil => simp [bitPoly]
  | cons b bs ih =>
    simp only [bitPoly, eval_add, eval_mul, eval_C, eval_pow, eval_X, one_pow, mul_one, ih,
      List.count_cons]
    cases b with
    | false => simp
    | true =>
      push_cast
      simp [add_comm]

/-- The generator, its highest term included, has an even number of terms. -/
def EvenTerms (g : BitVec w) : Prop := Odd ((bits g).count true)

instance (g : BitVec w) : Decidable (EvenTerms g) := inferInstanceAs (Decidable (Odd _))

theorem eval_genPoly (hg : EvenTerms g) : (genPoly g).eval 1 = 0 := by
  have hodd : (((bits g).count true : ℕ) : ZMod 2) = 1 := ZMod.natCast_eq_one_iff_odd.2 hg
  rw [genPoly, regPoly, eval_add, eval_bitPoly, hodd]
  simp only [eval_pow, eval_X, one_pow]
  decide

/-- **An odd number of flips is found.** -/
theorem crc_ne_of_odd (hu : u ≤ w) (hg : EvenTerms g) (s : BitVec w) {a b : List (BitVec u)}
    (hlen : a.length = b.length) (hodd : Odd (flips (msgBits a) (msgBits b))) :
    crc g s a ≠ crc g s b := by
  intro heq
  obtain ⟨q, hq⟩ := (crc_eq_iff_shifted hu s hlen).1 heq
  -- at 1 the generator is zero, and the difference is its number of terms
  have hone : (((flips (msgBits a) (msgBits b) : ℕ)) : ZMod 2) = 0 := by
    have heval := congrArg (eval 1) hq
    rw [eval_mul, eval_mul, eval_genPoly hg, zero_mul, eval_bitPoly] at heval
    simpa [flips] using heval
  rw [ZMod.natCast_eq_zero_iff_even] at hone
  exact Nat.not_even_iff_odd.2 hodd hone

/-! ## Two -/

theorem bitPoly_none (bs : List Bool) (h : bs.count true = 0) : bitPoly bs = 0 := by
  induction bs with
  | nil => rfl
  | cons b bs ih =>
    cases b with
    | true => simp at h
    | false => simpa [bitPoly] using ih (by simpa using h)

theorem bitPoly_single (bs : List Bool) (h : bs.count true = 1) :
    ∃ m < bs.length, bitPoly bs = X ^ m := by
  induction bs with
  | nil => simp at h
  | cons b bs ih =>
    cases b with
    | true =>
      refine ⟨bs.length, by simp, ?_⟩
      have hrest := bitPoly_none bs (by simpa using h)
      simp [bitPoly, hrest]
    | false =>
      obtain ⟨m, hm, hpoly⟩ := ih (by simpa using h)
      exact ⟨m, by simpa using Nat.lt_succ_of_lt hm, by simpa [bitPoly] using hpoly⟩

/-- Two bits, `d` apart. -/
theorem bitPoly_pair {bs : List Bool} (h : bs.count true = 2) :
    ∃ m d, 0 < d ∧ m + d < bs.length ∧ bitPoly bs = (X ^ d + 1) * X ^ m := by
  induction bs with
  | nil => simp at h
  | cons b bs ih =>
    cases b with
    | true =>
      obtain ⟨m, hm, hpoly⟩ := bitPoly_single bs (by simpa using h)
      refine ⟨m, bs.length - m, by omega, by simp only [List.length_cons]; omega, ?_⟩
      rw [add_mul, ← pow_add, Nat.sub_add_cancel hm.le, one_mul]
      simp [bitPoly, hpoly]
    | false =>
      obtain ⟨m, d, hd, hlt, hpoly⟩ := ih (by simpa using h)
      exact ⟨m, d, hd, by simpa using Nat.lt_succ_of_lt hlt, by simpa [bitPoly] using hpoly⟩

/-- **The period of a generator**: the order of `X` modulo it. -/
noncomputable def period (g : BitVec w) : ℕ := orderOf (AdjoinRoot.root (genPoly g))

theorem pow_root_iff (d : ℕ) : AdjoinRoot.root (genPoly g) ^ d = 1 ↔ genPoly g ∣ X ^ d + 1 := by
  rw [← AdjoinRoot.mk_X, ← map_pow, ← map_one (AdjoinRoot.mk (genPoly g)), AdjoinRoot.mk_eq_mk,
    CharTwo.sub_eq_add]

theorem dvd_iff_period (d : ℕ) : genPoly g ∣ X ^ d + 1 ↔ period g ∣ d := by
  rw [← pow_root_iff, period, orderOf_dvd_iff_pow_eq_one]

/-- **Two flips are found** in a message that is not longer than the period. -/
theorem crc_ne_of_two (hu : u ≤ w) (hg : g.getLsbD 0 = true) (s : BitVec w) {a b : List (BitVec u)}
    (hlen : a.length = b.length) (htwo : flips (msgBits a) (msgBits b) = 2)
    (hper : u * a.length ≤ period g) : crc g s a ≠ crc g s b := by
  intro heq
  have hbits : (msgBits a).length = (msgBits b).length := by
    rw [msgBits_length, msgBits_length, hlen]
  obtain ⟨m, d, hd, hlt, hpoly⟩ := bitPoly_pair htwo
  have hdvd := (crc_eq_iff hu hg s hlen).1 heq
  rw [hpoly] at hdvd
  have hle := Nat.le_of_dvd hd ((dvd_iff_period d).1 ((genPoly_coprime hg m).dvd_of_dvd_mul_right hdvd))
  rw [diff_length hbits, msgBits_length] at hlt
  omega

/-- Two bits at known places. -/
theorem bitPoly_at {bs : List Bool} {i j : ℕ} (hij : i < j) (hj : j < bs.length)
    (h : ∀ k (hk : k < bs.length), bs[k] = true ↔ k = i ∨ k = j) :
    bitPoly bs = (X ^ (j - i) + 1) * X ^ (bs.length - 1 - j) := by
  ext n
  rw [bitPoly_coeff, add_mul, ← pow_add, one_mul, coeff_add, coeff_X_pow, coeff_X_pow]
  by_cases hn : n < bs.length
  · rw [List.getD_eq_getElem _ _ (by simpa using hn), List.getElem_reverse]
    have hk := h (bs.length - 1 - n) (by omega)
    by_cases hi : n = j - i + (bs.length - 1 - j)
    · rw [hk.2 (Or.inl (by omega)), if_pos hi, if_neg (by omega)]
      decide
    · by_cases hj' : n = bs.length - 1 - j
      · rw [hk.2 (Or.inr (by omega)), if_neg hi, if_pos hj']
        decide
      · have hoff : bs[bs.length - 1 - n] = false := by
          rw [← Bool.not_eq_true, hk]
          omega
        rw [hoff, if_neg hi, if_neg hj']
        decide
  · rw [List.getD_eq_default _ _ (by simpa using Nat.le_of_not_lt hn), if_neg (by omega),
      if_neg (by omega)]
    decide

/-- **Two flips at known places** are missed iff they are a multiple of the period apart. -/
theorem crc_eq_iff_apart (hu : u ≤ w) (hg : g.getLsbD 0 = true) (s : BitVec w)
    {a b : List (BitVec u)} (hlen : a.length = b.length) {i j : ℕ} (hij : i < j)
    (hj : j < u * a.length)
    (h : ∀ k < u * a.length, (msgBits a)[k]? ≠ (msgBits b)[k]? ↔ k = i ∨ k = j) :
    crc g s a = crc g s b ↔ period g ∣ j - i := by
  have hbits : (msgBits a).length = (msgBits b).length := by
    rw [msgBits_length, msgBits_length, hlen]
  have hdiff : (diff (msgBits a) (msgBits b)).length = u * a.length := by
    rw [diff_length hbits, msgBits_length]
  have hat : ∀ k (hk : k < (diff (msgBits a) (msgBits b)).length),
      (diff (msgBits a) (msgBits b))[k] = true ↔ k = i ∨ k = j := by
    intro k hk
    rw [← h k (hdiff ▸ hk)]
    have hka : k < (msgBits a).length := by
      rw [← diff_length hbits]
      exact hk
    rw [List.getElem?_eq_getElem hka, List.getElem?_eq_getElem (hbits ▸ hka)]
    simp only [diff, List.getElem_zipWith, ne_eq, Option.some.injEq]
    cases (msgBits a)[k] <;> cases (msgBits b)[k] <;> simp
  rw [crc_eq_iff hu hg s hlen, bitPoly_at hij (by omega) hat]
  refine ⟨fun hdvd => ?_, fun hdvd => ?_⟩
  · exact (dvd_iff_period _).1 ((genPoly_coprime hg _).dvd_of_dvd_mul_right hdvd)
  · exact dvd_mul_of_dvd_left ((dvd_iff_period _).2 hdvd) _

/-- **Up to three flips are found.** -/
theorem crc_ne_of_flips (hu : u ≤ w) (hg : g.getLsbD 0 = true) (he : EvenTerms g) (s : BitVec w)
    {a b : List (BitVec u)} (hlen : a.length = b.length)
    (hpos : 0 < flips (msgBits a) (msgBits b)) (hle : flips (msgBits a) (msgBits b) ≤ 3)
    (hper : u * a.length ≤ period g) : crc g s a ≠ crc g s b := by
  rcases Nat.even_or_odd (flips (msgBits a) (msgBits b)) with heven | hodd
  · obtain ⟨k, hk⟩ := heven
    exact crc_ne_of_two hu hg s hlen (by omega) hper
  · exact crc_ne_of_odd hu he s hlen hodd

/-! ## The period -/

/-- A product modulo the generator, by Horner's rule. -/
def mulMod (g x y : BitVec w) : BitVec w :=
  (bits y).foldl (fun acc b => shiftStep g acc ^^^ if b then x else 0) 0

theorem foldl_mulMod (g x acc : BitVec w) (bs : List Bool) :
    regPoly (bs.foldl (fun acc b => shiftStep g acc ^^^ if b then x else 0) acc) =
      (regPoly acc * X ^ bs.length + regPoly x * bitPoly bs) %ₘ genPoly g := by
  induction bs generalizing acc with
  | nil => simp [bitPoly, regPoly_mod]
  | cons b bs ih =>
    have hbit : regPoly (if b then x else 0) = C (b.toNat : ZMod 2) * regPoly x := by
      cases b with
      | true => simp
      | false =>
        rw [if_neg Bool.false_ne_true, regPoly_zero]
        simp
    rw [List.foldl_cons, ih, regPoly_xor, shiftStep_poly, hbit, add_mul, add_assoc, add_modByMonic,
      modByMonic_mul _ _ (genPoly_monic g), ← add_modByMonic, bitPoly, List.length_cons, pow_succ]
    congr 1
    ring

theorem mulMod_poly (g x y : BitVec w) :
    regPoly (mulMod g x y) = (regPoly x * regPoly y) %ₘ genPoly g := by
  rw [mulMod, foldl_mulMod, regPoly_zero, zero_mul, zero_add]
  rfl

/-- The number with these digits, most significant first. -/
def ofBits (bs : List Bool) : ℕ := bs.foldl (fun n b => 2 * n + b.toNat) 0

/-- A power of `X` modulo the generator, by repeated squaring. -/
def expMod (g : BitVec w) (bs : List Bool) : BitVec w :=
  bs.foldl (fun acc b => if b then shiftStep g (mulMod g acc acc) else mulMod g acc acc) 1

theorem regPoly_one (hw : 0 < w) : regPoly (1 : BitVec w) = 1 := by
  ext n
  rw [regPoly_coeff, coeff_one]
  have hbit : (1 : BitVec w).getLsbD n = decide (n = 0) := by
    rw [BitVec.ofNat_eq_ofNat, BitVec.getLsbD_one]
    simp [hw]
  rw [hbit]
  by_cases hn : n = 0 <;> simp [hn]

theorem expMod_poly (hw : 0 < w) (g : BitVec w) (bs : List Bool) :
    regPoly (expMod g bs) = X ^ ofBits bs %ₘ genPoly g := by
  induction bs using List.reverseRecOn with
  | nil =>
    have hone : expMod g [] = 1 := rfl
    rw [hone, ← regPoly_mod, regPoly_one hw]
    rfl
  | append_singleton bs b ih =>
    have hexp : expMod g (bs ++ [b]) = if b then shiftStep g (mulMod g (expMod g bs) (expMod g bs))
        else mulMod g (expMod g bs) (expMod g bs) := by
      unfold expMod
      rw [List.foldl_append]
      rfl
    have hval : ofBits (bs ++ [b]) = 2 * ofBits bs + b.toNat := by
      unfold ofBits
      rw [List.foldl_append]
      rfl
    have hsq : regPoly (mulMod g (expMod g bs) (expMod g bs)) = X ^ (2 * ofBits bs) %ₘ genPoly g := by
      rw [mulMod_poly, ih, modByMonic_mul _ _ (genPoly_monic g), mul_comm,
        modByMonic_mul _ _ (genPoly_monic g), ← pow_add, ← two_mul]
    rw [hexp, hval]
    cases b with
    | true =>
      rw [if_pos rfl, shiftStep_poly, hsq, modByMonic_mul _ _ (genPoly_monic g), ← pow_succ]
      rfl
    | false => simpa using hsq

theorem expMod_iff (hw : 0 < w) (bs : List Bool) :
    expMod g bs = 1 ↔ AdjoinRoot.root (genPoly g) ^ ofBits bs = 1 := by
  have hone : X ^ ofBits bs %ₘ genPoly g = 1 ↔ genPoly g ∣ X ^ ofBits bs - 1 := by
    have hself : (1 : (ZMod 2)[X]) %ₘ genPoly g = 1 := by rw [← regPoly_one hw, regPoly_mod]
    rw [← modByMonic_eq_zero_iff_dvd (genPoly_monic g), sub_modByMonic, hself, sub_eq_zero]
  rw [pow_root_iff, ← CharTwo.sub_eq_add, ← hone, ← expMod_poly hw, ← regPoly_one hw]
  exact ⟨fun h => by rw [h], fun h => regPoly_inj h⟩

/-- **The period, computed**: a power that is one, while none with a prime less is. -/
theorem period_eq (hw : 0 < w) {n : ℕ} (hn : 0 < n) (bs : List Bool) (hbs : ofBits bs = n)
    (hone : expMod g bs = 1)
    (hprime : ∀ p : ℕ, p.Prime → p ∣ n → ∃ cs, ofBits cs = n / p ∧ expMod g cs ≠ 1) :
    period g = n := by
  apply orderOf_eq_of_pow_and_pow_div_prime hn
  · rw [← hbs]
    exact (expMod_iff hw bs).1 hone
  · intro p hp hdvd hpow
    obtain ⟨cs, hcs, hne⟩ := hprime p hp hdvd
    rw [← hcs] at hpow
    exact hne ((expMod_iff hw cs).2 hpow)

end Crc
