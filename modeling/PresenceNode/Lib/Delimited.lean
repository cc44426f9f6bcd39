import Mathlib.Data.List.Basic
import Mathlib.Data.List.Infix

/-!
# Words that say their own length

A word states its length in its first symbols, so a stream of words can be cut without anything
between them, and however it comes in.

* `cut_append`: cutting a stream in two parts, the rest of the first one carried over, is cutting
  it at once.
* `cut_words`: a stream of words, and a part of one more, is cut into just these.
* `receive_all`: so a receiver that keeps the rest may be given the stream in any pieces.
-/

/-- How a word says its length: by its first `head` symbols, and it is longer than these. -/
structure Delimited (α : Type) where
  head : ℕ
  size : List α → ℕ
  head_lt : ∀ l, head < size l
  size_take : ∀ l, size (l.take head) = size l

namespace Delimited

variable {α : Type} (D : Delimited α)

/-- A whole word stands at the front. -/
def Has (l : List α) : Prop := D.head ≤ l.length ∧ D.size l ≤ l.length

instance (l : List α) : Decidable (D.Has l) := inferInstanceAs (Decidable (_ ∧ _))

/-- Up to `n` words are cut off; what is left comes with them. -/
def cutN : ℕ → List α → List (List α) × List α
  | 0, l => ([], l)
  | n + 1, l =>
    if D.Has l then
      (l.take (D.size l) :: (cutN n (l.drop (D.size l))).1, (cutN n (l.drop (D.size l))).2)
    else ([], l)

/-- **The words at the front of a stream**, and what is left. -/
def cut (l : List α) : List (List α) × List α := D.cutN l.length l

/-- One word. -/
structure IsWord (w : List α) : Prop where
  head_le : D.head ≤ w.length
  size_eq : D.size w = w.length

variable {D} {l w t : List α}

theorem size_pos (l : List α) : 0 < D.size l := Nat.zero_lt_of_lt (D.head_lt l)

/-- The length does not depend on what follows. -/
theorem size_append (h : D.head ≤ l.length) (t : List α) : D.size (l ++ t) = D.size l := by
  rw [← D.size_take (l ++ t), List.take_append_of_le_length h, D.size_take]

theorem Has.append (h : D.Has l) (t : List α) : D.Has (l ++ t) := by
  obtain ⟨hh, hs⟩ := h
  refine ⟨?_, ?_⟩
  · rw [List.length_append]
    omega
  · rw [size_append hh, List.length_append]
    omega

theorem IsWord.has (h : D.IsWord w) : D.Has w := ⟨h.head_le, h.size_eq.le⟩

/-- Each word is shorter than the stream, so as many rounds as it is long are enough. -/
theorem cutN_enough : ∀ (n m : ℕ) (l : List α), l.length ≤ n → l.length ≤ m →
    D.cutN n l = D.cutN m l := by
  intro n
  induction n with
  | zero =>
    intro m l hn _
    have hnil : l = [] := List.eq_nil_of_length_eq_zero (Nat.le_zero.1 hn)
    have hno : ¬ D.Has l := by
      intro h
      have hpos := size_pos (D := D) l
      have hs := h.2
      rw [hnil, List.length_nil] at hs
      rw [hnil] at hpos
      omega
    cases m with
    | zero => rfl
    | succ m => rw [cutN, cutN, if_neg hno]
  | succ n ih =>
    intro m l hn hm
    by_cases h : D.Has l
    · have hpos := size_pos (D := D) l
      have hs := h.2
      cases m with
      | zero => omega
      | succ m =>
        have hlen : (l.drop (D.size l)).length ≤ n := by
          rw [List.length_drop]
          omega
        have hlen' : (l.drop (D.size l)).length ≤ m := by
          rw [List.length_drop]
          omega
        rw [cutN, cutN, if_pos h, if_pos h, ih m _ hlen hlen']
    · rw [cutN, if_neg h]
      cases m with
      | zero => rfl
      | succ m => rw [cutN, if_neg h]

theorem cut_has (h : D.Has l) :
    D.cut l = (l.take (D.size l) :: (D.cut (l.drop (D.size l))).1,
      (D.cut (l.drop (D.size l))).2) := by
  have hpos := size_pos (D := D) l
  have hs := h.2
  have hlen : l.length = l.length - 1 + 1 := by omega
  have hrest : D.cutN (l.length - 1) (l.drop (D.size l)) = D.cut (l.drop (D.size l)) := by
    refine cutN_enough _ _ _ ?_ (Nat.le_refl _)
    rw [List.length_drop]
    omega
  unfold cut
  rw [hlen, cutN, if_pos h, hrest]
  rfl

theorem cut_no (h : ¬ D.Has l) : D.cut l = ([], l) := by
  unfold cut
  cases l.length with
  | zero => rfl
  | succ n => rw [cutN, if_neg h]

/-- **Nothing is lost**: the words and what is left are the stream. -/
theorem cut_flatten (l : List α) : (D.cut l).1.flatten ++ (D.cut l).2 = l := by
  generalize hn : l.length = n
  induction n using Nat.strong_induction_on generalizing l with
  | _ n ih =>
    by_cases h : D.Has l
    · have hpos := size_pos (D := D) l
      have hs := h.2
      have hrest := ih (l.drop (D.size l)).length (by rw [List.length_drop]; omega) _ rfl
      rw [cut_has h, List.flatten_cons, List.append_assoc, hrest, List.take_append_drop]
    · rw [cut_no h]
      rfl

/-- **A stream in two parts**: what is left of the first is put before the second. -/
theorem cut_append (l t : List α) :
    D.cut (l ++ t) = ((D.cut l).1 ++ (D.cut ((D.cut l).2 ++ t)).1,
      (D.cut ((D.cut l).2 ++ t)).2) := by
  generalize hn : l.length = n
  induction n using Nat.strong_induction_on generalizing l with
  | _ n ih =>
    by_cases h : D.Has l
    · have hpos := size_pos (D := D) l
      have hs := h.2
      have hsize : D.size (l ++ t) = D.size l := size_append h.1 t
      have hrest := ih (l.drop (D.size l)).length (by rw [List.length_drop]; omega) _ rfl
      rw [cut_has h, cut_has (h.append t), hsize, List.take_append_of_le_length hs,
        List.drop_append_of_le_length hs, hrest]
      rfl
    · rw [cut_no h]
      rfl

/-- A word at the front is cut off. -/
theorem cut_word (h : D.IsWord w) (t : List α) :
    D.cut (w ++ t) = (w :: (D.cut t).1, (D.cut t).2) := by
  have hsize : D.size (w ++ t) = w.length := (size_append h.head_le t).trans h.size_eq
  rw [cut_has (h.has.append t), hsize, List.take_left, List.drop_left]

/-- A part of a word is none. -/
theorem not_has_part (h : D.IsWord w) (ht : t <+: w) (hne : t ≠ w) : ¬ D.Has t := by
  obtain ⟨u, rfl⟩ := ht
  rintro ⟨hh, hs⟩
  have hsize : D.size t = (t ++ u).length := (size_append hh u).symm.trans h.size_eq
  rw [hsize, List.length_append] at hs
  have hu : u = [] := List.eq_nil_of_length_eq_zero (by omega)
  rw [hu, List.append_nil] at hne
  exact hne rfl

/-- **A stream of words**, and a part of one more, is cut into just these. -/
theorem cut_words {ws : List (List α)} (hws : ∀ w ∈ ws, D.IsWord w) (ht : ¬ D.Has t) :
    D.cut (ws.flatten ++ t) = (ws, t) := by
  induction ws with
  | nil => exact cut_no ht
  | cons w ws ih =>
    rw [List.flatten_cons, List.append_assoc, cut_word (hws w List.mem_cons_self),
      ih fun v hv => hws v (List.mem_cons_of_mem _ hv)]

variable (D)

/-- A receiver: the words so far, and what is left. -/
def receive (st : List (List α) × List α) (piece : List α) : List (List α) × List α :=
  (st.1 ++ (D.cut (st.2 ++ piece)).1, (D.cut (st.2 ++ piece)).2)

variable {D}

theorem receive_cut (l t : List α) : D.receive (D.cut l) t = D.cut (l ++ t) :=
  (cut_append l t).symm

/-- **It does not matter in which pieces a stream comes in.** -/
theorem receive_all (pieces : List (List α)) (l : List α) :
    pieces.foldl D.receive (D.cut l) = D.cut (l ++ pieces.flatten) := by
  induction pieces generalizing l with
  | nil => rw [List.flatten_nil, List.append_nil]; rfl
  | cons p pieces ih =>
    rw [List.foldl_cons, receive_cut, ih, List.flatten_cons, List.append_assoc]

end Delimited
