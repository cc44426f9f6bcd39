import Mathlib.Algebra.CharP.Two
import Mathlib.Algebra.Field.ZMod
import Mathlib.Algebra.Polynomial.Div
import Mathlib.Data.List.GetD
import Mathlib.RingTheory.Coprime.Lemmas
import Mathlib.Tactic.LinearCombination

/-!
# Cyclic redundancy checks as polynomial division

A register of `w` bits is shifted left, most significant bit first, and the low part `g` of
the generator is subtracted when a one falls out. Words of `u` bits are fed into its top. Bits
are read as the coefficients of a polynomial over GF(2), the first one the highest.

* `bitPoly`, `regPoly`: the polynomial of a bit string and of a register.
* `shiftStep_poly`: a shift multiplies by `X` modulo the generator.
* `crc_poly`: what the register holds after a message, for every seed.
* `crc_xor`: the registers of two messages differ by the one of their difference.
* `crc_ne_of_burst`: messages that differ in a window of the register's width have different
  registers.
-/

namespace Crc

open Polynomial

/-! ## Bits as polynomials -/

/-- The polynomial of a bit string, first bit highest. -/
noncomputable def bitPoly : List Bool → (ZMod 2)[X]
  | [] => 0
  | b :: bs => C (b.toNat : ZMod 2) * X ^ bs.length + bitPoly bs

theorem bitPoly_append (xs ys : List Bool) :
    bitPoly (xs ++ ys) = bitPoly xs * X ^ ys.length + bitPoly ys := by
  induction xs with
  | nil => simp [bitPoly]
  | cons x xs ih =>
    simp only [List.cons_append, bitPoly, List.length_append, ih, pow_add]
    ring

theorem bitPoly_coeff (bs : List Bool) (n : ℕ) :
    (bitPoly bs).coeff n = ((bs.reverse.getD n false).toNat : ZMod 2) := by
  induction bs with
  | nil => simp [bitPoly]
  | cons b bs ih =>
    simp only [bitPoly, coeff_add, coeff_C_mul_X_pow, ih, List.reverse_cons]
    rcases Nat.lt_trichotomy n bs.length with h | h | h
    · rw [if_neg (by omega), zero_add, List.getD_append _ _ _ _ (by simpa using h)]
    · subst h
      rw [if_pos rfl, List.getD_append_right _ _ _ _ (by simp)]
      simp
    · rw [if_neg (by omega), zero_add, List.getD_append_right _ _ _ _ (by simpa using h.le),
        List.getD_eq_default _ _ (by simpa using h.le),
        List.getD_eq_default _ _ (by simp only [List.length_reverse, List.length_singleton]; omega)]

theorem bitPoly_degree_lt (bs : List Bool) : (bitPoly bs).degree < bs.length := by
  rw [degree_lt_iff_coeff_zero]
  intro n hn
  rw [bitPoly_coeff, List.getD_eq_default _ _ (by simpa using hn)]
  simp

theorem toNat_inj {a b : Bool} (h : (a.toNat : ZMod 2) = b.toNat) : a = b := by
  revert h
  cases a <;> cases b <;> decide

/-- Bit strings of one length are told apart by their polynomials. -/
theorem bitPoly_inj {xs ys : List Bool} (hlen : xs.length = ys.length)
    (h : bitPoly xs = bitPoly ys) : xs = ys := by
  rw [← List.reverse_inj]
  refine List.ext_getElem (by simpa using hlen) ?_
  intro n hx hy
  have hcoeff : (bitPoly xs).coeff n = (bitPoly ys).coeff n := by rw [h]
  rw [bitPoly_coeff, bitPoly_coeff] at hcoeff
  have hget := toNat_inj hcoeff
  rwa [List.getD_eq_getElem _ _ hx, List.getD_eq_getElem _ _ hy] at hget

variable {w u : ℕ}

/-- The bits of a word, most significant first. -/
def bits (x : BitVec w) : List Bool := (List.range w).map x.getMsbD

@[simp] theorem bits_length (x : BitVec w) : (bits x).length = w := by simp [bits]

/-- The polynomial of a register. -/
noncomputable def regPoly (x : BitVec w) : (ZMod 2)[X] := bitPoly (bits x)

theorem regPoly_coeff (x : BitVec w) (n : ℕ) :
    (regPoly x).coeff n = ((x.getLsbD n).toNat : ZMod 2) := by
  rw [regPoly, bitPoly_coeff]
  congr 2
  by_cases hn : n < w
  · rw [List.getD_eq_getElem _ _ (by simpa using hn), List.getElem_reverse]
    simp only [bits, List.length_map, List.length_range, List.getElem_map, List.getElem_range]
    rw [BitVec.getMsbD_eq_getLsbD, BitVec.getLsbD]
    have h1 : w - 1 - n < w := by omega
    have h2 : w - 1 - (w - 1 - n) = n := by omega
    simp only [h1, h2, decide_true, Bool.true_and, BitVec.getLsbD]
  · rw [List.getD_eq_default _ _ (by simpa using Nat.le_of_not_lt hn),
      BitVec.getLsbD_of_ge _ _ (Nat.le_of_not_lt hn)]

theorem regPoly_degree_lt (x : BitVec w) : (regPoly x).degree < w := by
  simpa [regPoly] using bitPoly_degree_lt (bits x)

theorem regPoly_inj {x y : BitVec w} (h : regPoly x = regPoly y) : x = y := by
  apply BitVec.eq_of_getLsbD_eq
  intro n _
  have hcoeff : (regPoly x).coeff n = (regPoly y).coeff n := by rw [h]
  rw [regPoly_coeff, regPoly_coeff] at hcoeff
  exact toNat_inj hcoeff

/-- Exclusive or is addition. -/
theorem regPoly_xor (x y : BitVec w) : regPoly (x ^^^ y) = regPoly x + regPoly y := by
  ext n
  rw [coeff_add, regPoly_coeff, regPoly_coeff, regPoly_coeff, BitVec.getLsbD_xor]
  cases x.getLsbD n <;> cases y.getLsbD n <;> decide

/-! ## The register -/

/-- The generator with low part `g`. -/
noncomputable def genPoly (g : BitVec w) : (ZMod 2)[X] := X ^ w + regPoly g

theorem genPoly_monic (g : BitVec w) : (genPoly g).Monic := monic_X_pow_add (regPoly_degree_lt g)

theorem genPoly_degree (g : BitVec w) : (genPoly g).degree = w := by
  rw [genPoly, degree_add_eq_left_of_degree_lt, degree_X_pow]
  rw [degree_X_pow]
  exact regPoly_degree_lt g

/-- A register is its own remainder. -/
theorem regPoly_mod (g x : BitVec w) : regPoly x %ₘ genPoly g = regPoly x := by
  rw [modByMonic_eq_self_iff (genPoly_monic g), genPoly_degree]
  exact regPoly_degree_lt x

/-- Reducing before a multiplication changes no remainder. -/
theorem modByMonic_mul (p r : (ZMod 2)[X]) {q : (ZMod 2)[X]} (hq : q.Monic) :
    (p %ₘ q * r) %ₘ q = (p * r) %ₘ q := by
  apply modByMonic_eq_of_dvd_sub hq
  rw [← sub_mul]
  exact dvd_mul_of_dvd_left (dvd_modByMonic_sub p q) r

/-- One shift: the generator is subtracted when a one falls out. -/
def shiftStep (g x : BitVec w) : BitVec w := if x.msb then (x <<< 1) ^^^ g else x <<< 1

/-- A plain shift loses the top bit. -/
theorem regPoly_shiftLeft (x : BitVec w) :
    regPoly (x <<< 1) + C (x.msb.toNat : ZMod 2) * X ^ w = regPoly x * X := by
  ext n
  rw [coeff_add, coeff_C_mul_X_pow, regPoly_coeff, BitVec.getLsbD_shiftLeft]
  cases n with
  | zero =>
    rw [mul_comm, coeff_X_mul_zero]
    rcases Nat.eq_zero_or_pos w with h0 | hpos
    · subst h0
      simp [BitVec.msb]
    · rw [if_neg (by omega)]
      simp
  | succ n =>
    rw [coeff_mul_X, regPoly_coeff]
    rcases Nat.lt_trichotomy (n + 1) w with h | h | h
    · rw [if_neg (by omega)]
      simp [h]
    · rw [if_pos h, BitVec.msb_eq_getLsbD_last]
      subst h
      simp
    · rw [if_neg (by omega), BitVec.getLsbD_of_ge x n (by omega)]
      simp [Nat.not_lt.2 h.le]

/-- **A shift multiplies by `X`** modulo the generator. -/
theorem shiftStep_poly (g x : BitVec w) :
    regPoly (shiftStep g x) = (regPoly x * X) %ₘ genPoly g := by
  rw [← regPoly_mod g (shiftStep g x)]
  apply modByMonic_eq_of_dvd_sub (genPoly_monic g)
  rw [← regPoly_shiftLeft]
  unfold shiftStep
  split
  · rename_i h
    have hsub : regPoly (x <<< 1 ^^^ g) - (regPoly (x <<< 1) + C (x.msb.toNat : ZMod 2) * X ^ w) =
        genPoly g := by
      rw [regPoly_xor, h, genPoly]
      simp only [Bool.toNat_true, Nat.cast_one, map_one, one_mul]
      -- over GF(2) the sign does not matter
      rw [add_sub_add_left_eq_sub, CharTwo.sub_eq_add, add_comm]
    rw [hsub]
  · rename_i h
    rw [Bool.not_eq_true] at h
    simp [h]

theorem shiftStep_iterate_poly (g x : BitVec w) (n : ℕ) :
    regPoly ((shiftStep g)^[n] x) = (regPoly x * X ^ n) %ₘ genPoly g := by
  induction n with
  | zero => simp [regPoly_mod]
  | succ n ih =>
    rw [Function.iterate_succ_apply', shiftStep_poly, ih, modByMonic_mul _ _ (genPoly_monic g),
      pow_succ, mul_assoc]

/-- A word is fed into the top of the register. -/
def feed (g x : BitVec w) (b : BitVec u) : BitVec w :=
  (shiftStep g)^[u] (x ^^^ (b.setWidth w <<< (w - u)))

theorem regPoly_top (hu : u ≤ w) (b : BitVec u) :
    regPoly (b.setWidth w <<< (w - u)) = regPoly b * X ^ (w - u) := by
  ext n
  rw [regPoly_coeff, coeff_mul_X_pow', regPoly_coeff, BitVec.getLsbD_shiftLeft,
    BitVec.getLsbD_setWidth]
  by_cases hn : w - u ≤ n
  · rw [if_pos hn]
    by_cases hw : n < w
    · have h1 : ¬ n < w - u := by omega
      have h2 : n - (w - u) < w := by omega
      simp [hw, h1, h2]
    · rw [BitVec.getLsbD_of_ge b _ (by omega)]
      simp
  · rw [if_neg hn]
    simp [Nat.lt_of_not_le hn]

theorem feed_poly (hu : u ≤ w) (g x : BitVec w) (b : BitVec u) :
    regPoly (feed g x b) = (regPoly x * X ^ u + regPoly b * X ^ w) %ₘ genPoly g := by
  have hpow : (X ^ w : (ZMod 2)[X]) = X ^ (w - u) * X ^ u := by
    rw [← pow_add, Nat.sub_add_cancel hu]
  rw [feed, shiftStep_iterate_poly, regPoly_xor, regPoly_top hu, hpow]
  congr 1
  ring

/-- The register after a message. -/
def crc (g seed : BitVec w) (m : List (BitVec u)) : BitVec w := m.foldl (feed g) seed

/-- The bits of a message. -/
def msgBits (m : List (BitVec u)) : List Bool := m.flatMap bits

@[simp] theorem msgBits_length (m : List (BitVec u)) : (msgBits m).length = u * m.length := by
  induction m with
  | nil => rfl
  | cons b m ih =>
    have hcons : msgBits (b :: m) = bits b ++ msgBits m := rfl
    rw [hcons, List.length_append, ih, bits_length, List.length_cons]
    ring

theorem bitPoly_msgBits_cons (b : BitVec u) (m : List (BitVec u)) :
    bitPoly (msgBits (b :: m)) = regPoly b * X ^ (u * m.length) + bitPoly (msgBits m) := by
  rw [← msgBits_length, regPoly, ← bitPoly_append]
  rfl

/-- **The register after a message**, for every seed: the remainder of the message, shifted by
the register's width, and of the seed, shifted by the message's length. -/
theorem crc_poly (hu : u ≤ w) (g seed : BitVec w) (m : List (BitVec u)) :
    regPoly (crc g seed m) =
      (bitPoly (msgBits m) * X ^ w + regPoly seed * X ^ (u * m.length)) %ₘ genPoly g := by
  induction m generalizing seed with
  | nil => simp [crc, msgBits, bitPoly, regPoly_mod]
  | cons b m ih =>
    have hcrc : crc g seed (b :: m) = crc g (feed g seed b) m := rfl
    rw [hcrc, ih, feed_poly hu, add_modByMonic, modByMonic_mul _ _ (genPoly_monic g),
      ← add_modByMonic, bitPoly_msgBits_cons, List.length_cons, Nat.mul_succ, pow_add]
    congr 1
    ring

/-! ## Differences -/

theorem bitPoly_xor (a b : List (BitVec u)) (hlen : a.length = b.length) :
    bitPoly (msgBits (List.zipWith (· ^^^ ·) a b)) =
      bitPoly (msgBits a) + bitPoly (msgBits b) := by
  induction a generalizing b with
  | nil =>
    cases b with
    | nil => simp [msgBits, bitPoly]
    | cons y b => simp at hlen
  | cons x a ih =>
    cases b with
    | nil => simp at hlen
    | cons y b =>
      have hlen' : a.length = b.length := by simpa using hlen
      rw [List.zipWith_cons_cons, bitPoly_msgBits_cons, bitPoly_msgBits_cons,
        bitPoly_msgBits_cons, ih b hlen', regPoly_xor, List.length_zipWith, hlen', Nat.min_self]
      ring

/-- **The CRC is linear**: in the seed and the message together. -/
theorem crc_xor (hu : u ≤ w) (g s t : BitVec w) (a b : List (BitVec u))
    (hlen : a.length = b.length) :
    crc g (s ^^^ t) (List.zipWith (· ^^^ ·) a b) = crc g s a ^^^ crc g t b := by
  apply regPoly_inj
  rw [regPoly_xor, crc_poly hu, crc_poly hu, crc_poly hu, ← add_modByMonic, bitPoly_xor a b hlen,
    regPoly_xor, List.length_zipWith, hlen, Nat.min_self]
  congr 1
  ring

/-- Two strings differ at most in `n` consecutive places. -/
def DifferWithin {α : Type*} (n : ℕ) (xs ys : List α) : Prop :=
  ∃ i, ∀ k, k < i ∨ i + n ≤ k → xs[k]? = ys[k]?

theorem differWithin_iff {α : Type*} {n : ℕ} {xs ys : List α} :
    DifferWithin n xs ys ↔
      ∃ i, xs.take i = ys.take i ∧ xs.drop (i + n) = ys.drop (i + n) := by
  refine exists_congr fun i => ⟨?_, ?_⟩
  · intro h
    refine ⟨List.ext_getElem? fun k => ?_, List.ext_getElem? fun k => ?_⟩
    · rw [List.getElem?_take, List.getElem?_take]
      split
      · rename_i hk
        exact h k (.inl hk)
      · rfl
    · rw [List.getElem?_drop, List.getElem?_drop]
      exact h _ (.inr (Nat.le_add_right _ _))
  · rintro ⟨htake, hdrop⟩ k (hk | hk)
    · rw [← List.getElem?_take_of_lt hk, htake, List.getElem?_take_of_lt hk]
    · obtain ⟨d, rfl⟩ := Nat.exists_eq_add_of_le hk
      rw [← List.getElem?_drop, hdrop, List.getElem?_drop]

/-- Such strings are alike before the window and after it. -/
theorem DifferWithin.split {α : Type*} {n : ℕ} {xs ys : List α} (h : DifferWithin n xs ys) :
    ∃ pre mid mid' post, xs = pre ++ mid ++ post ∧ ys = pre ++ mid' ++ post ∧
      mid.length ≤ n ∧ mid'.length ≤ n := by
  obtain ⟨i, htake, hdrop⟩ := differWithin_iff.1 h
  have hparts : ∀ zs : List α, zs = zs.take i ++ (zs.drop i).take n ++ zs.drop (i + n) := by
    intro zs
    rw [List.append_assoc, ← List.drop_drop, List.take_append_drop, List.take_append_drop]
  refine ⟨xs.take i, (xs.drop i).take n, (ys.drop i).take n, xs.drop (i + n), hparts xs, ?_,
    List.length_take_le _ _, List.length_take_le _ _⟩
  rw [htake, hdrop]
  exact hparts ys

theorem msgBits_inj {a b : List (BitVec u)} (hlen : a.length = b.length)
    (h : msgBits a = msgBits b) : a = b := by
  induction a generalizing b with
  | nil =>
    cases b with
    | nil => rfl
    | cons y b => simp at hlen
  | cons x a ih =>
    cases b with
    | nil => simp at hlen
    | cons y b =>
      have happ : bits x ++ msgBits a = bits y ++ msgBits b := h
      obtain ⟨hhead, htail⟩ := List.append_inj happ (by simp)
      have hxy : x = y := regPoly_inj (by rw [regPoly, regPoly, hhead])
      rw [hxy, ih (by simpa using hlen) htail]

/-- The generator has a constant term, so shifting does not make it divide anything new. -/
theorem genPoly_coprime {g : BitVec w} (hg : g.getLsbD 0 = true) (n : ℕ) :
    IsCoprime (genPoly g) (X ^ n) := by
  have hw : w ≠ 0 := by
    rintro rfl
    simp at hg
  have hconst : (genPoly g).coeff 0 = 1 := by
    rw [genPoly, coeff_add, regPoly_coeff, hg, coeff_X_pow, if_neg (by omega)]
    simp
  apply IsCoprime.pow_right
  refine ⟨1, -(genPoly g).divX, ?_⟩
  have hdiv := divX_mul_X_add (genPoly g)
  rw [hconst, C_1] at hdiv
  linear_combination -hdiv

/-- **Bursts are found**: two messages of one length that differ, and differ only in a window
of the register's width, leave different registers. -/
theorem crc_ne_of_burst (hu : u ≤ w) {g : BitVec w} (hg : g.getLsbD 0 = true) (s : BitVec w)
    {a b : List (BitVec u)} (hlen : a.length = b.length) (hne : a ≠ b)
    (hwin : DifferWithin w (msgBits a) (msgBits b)) : crc g s a ≠ crc g s b := by
  intro heq
  obtain ⟨pre, mid, mid', post, ha, hb, hmid, hmid'⟩ := hwin.split
  have hlen' : mid.length = mid'.length := by
    have hbits : (msgBits a).length = (msgBits b).length := by
      rw [msgBits_length, msgBits_length, hlen]
    rw [ha, hb] at hbits
    simp only [List.length_append] at hbits
    omega
  -- the generator divides the shifted difference, and is coprime to the shift
  have hdvd : genPoly g ∣ (bitPoly mid - bitPoly mid') * X ^ (post.length + w) := by
    have hsub : regPoly (crc g s a) - regPoly (crc g s b) = 0 := by rw [heq, sub_self]
    rw [crc_poly hu, crc_poly hu, ← sub_modByMonic, modByMonic_eq_zero_iff_dvd (genPoly_monic g),
      ha, hb, hlen] at hsub
    rw [bitPoly_append, bitPoly_append, bitPoly_append, bitPoly_append, hlen'] at hsub
    convert hsub using 1
    ring
  have hzero : bitPoly mid - bitPoly mid' = 0 := by
    apply eq_zero_of_dvd_of_degree_lt ((genPoly_coprime hg _).dvd_of_dvd_mul_right hdvd)
    rw [genPoly_degree]
    have hdeg : ∀ zs : List Bool, zs.length ≤ w → (bitPoly zs).degree < w := fun zs hz =>
      lt_of_lt_of_le (bitPoly_degree_lt zs) (by exact_mod_cast hz)
    exact (degree_sub_le _ _).trans_lt (max_lt (hdeg mid hmid) (hdeg mid' hmid'))
  have hmm : mid = mid' := bitPoly_inj hlen' (sub_eq_zero.1 hzero)
  apply hne
  apply msgBits_inj hlen
  rw [ha, hb, hmm]

end Crc
