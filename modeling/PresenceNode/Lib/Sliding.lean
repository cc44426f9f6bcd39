import Mathlib.Data.List.Infix
import Mathlib.Data.List.TakeWhile
import Mathlib.Tactic.Ring

/-!
# Searching a stream through a buffer that slides

Items are appended to a buffer and the buffer is searched after each. When it holds `cap` items
it slides, keeping the last `keep`. A search may see only the items before the first one that
fails `p`, as a search for a string in memory does.

* `held`: what the buffer holds after a stream.
* `window`: what is searched at item `n`, in closed form; `held_window`: that it is so.
* `suffix_window`: what ends at item `n` and is no longer than the tail plus one is in the window.
* `finds_iff`: a search finds what stands before anything that ends it.
* `Seen`: some search has found the token; `seen_iff`: without items that end a search this is
  the same as the token being in the stream.
-/

namespace Sliding

variable {α : Type*} (cap keep : ℕ)

/-- A full buffer keeps its last items. -/
def slide (buf : List α) : List α :=
  if buf.length ≥ cap then buf.drop (buf.length - keep) else buf

/-- **What the buffer holds** after a stream. -/
def held (xs : List α) : List α := xs.foldl (fun buf x => slide cap keep (buf ++ [x])) []

/-- Where the buffer begins in the stream when it takes item `n`. -/
def start (n : ℕ) : ℕ := (cap - keep) * ((n - (keep + 1)) / (cap - keep))

/-- **What is searched** at item `n`. -/
def window (xs : List α) (n : ℕ) : List α := (xs.take n).drop (start cap keep n)

theorem held_concat (xs : List α) (x : α) :
    held cap keep (xs ++ [x]) = slide cap keep (held cap keep xs ++ [x]) := by
  unfold held
  rw [List.foldl_append]
  rfl

variable {cap keep}

/-- The buffer begins later by its period when it has slid. -/
theorem start_succ (hk : keep < cap) (n : ℕ) :
    start cap keep (n + 2) =
      if n + 1 - start cap keep (n + 1) ≥ cap then n + 1 - keep else start cap keep (n + 1) := by
  unfold start
  have h1 : n + 2 - (keep + 1) = n + 1 - keep := by omega
  have h2 : n + 1 - (keep + 1) = n - keep := by omega
  rw [h1, h2]
  obtain ⟨p, rfl⟩ : ∃ p, cap = keep + p := ⟨cap - keep, by omega⟩
  have hp : 0 < p := by omega
  rw [Nat.add_sub_cancel_left]
  rcases Nat.lt_or_ge n keep with hlt | hge
  · -- the buffer is not even as long as its tail
    have h3 : n + 1 - keep = 0 := by omega
    have h4 : n - keep = 0 := by omega
    rw [h3, h4, Nat.zero_div, Nat.mul_zero, if_neg (by omega)]
  · obtain ⟨d, rfl⟩ := Nat.exists_eq_add_of_le hge
    have h3 : keep + d + 1 - keep = d + 1 := by omega
    have h4 : keep + d - keep = d := by omega
    rw [h3, h4, Nat.succ_div]
    have hmod := Nat.div_add_mod d p
    have hlt := Nat.mod_lt d hp
    by_cases hdvd : p ∣ d + 1
    · obtain ⟨q, hq⟩ := hdvd
      have hdiv : d / p + 1 = q := by
        have hsucc := Nat.succ_div (a := d) (b := p)
        rw [if_pos ⟨q, hq⟩, hq, Nat.mul_div_cancel_left _ hp] at hsucc
        exact hsucc.symm
      rw [if_pos ⟨q, hq⟩, hdiv, if_pos, hq]
      rw [← hdiv, Nat.mul_add] at hq
      omega
    · rw [if_neg hdvd, Nat.add_zero, if_neg]
      intro hfull
      apply hdvd
      refine ⟨d / p + 1, ?_⟩
      rw [Nat.mul_add]
      omega

theorem start_le (n : ℕ) : start cap keep n ≤ n - (keep + 1) := Nat.mul_div_le _ _

theorem start_le_length (xs : List α) : start cap keep (xs.length + 1) ≤ xs.length := by
  have hle : start cap keep (xs.length + 1) ≤ xs.length + 1 - (keep + 1) := start_le _
  omega

/-- **The buffer in closed form.** -/
theorem held_eq (hk : keep < cap) (xs : List α) :
    held cap keep xs = xs.drop (start cap keep (xs.length + 1)) := by
  induction xs using List.reverseRecOn with
  | nil => simp [held]
  | append_singleton xs x ih =>
    have hle : start cap keep (xs.length + 1) ≤ xs.length := start_le_length xs
    rw [held_concat, ih, ← List.drop_append_of_le_length hle, List.length_append,
      List.length_singleton, start_succ hk]
    unfold slide
    rw [List.length_drop, List.length_append, List.length_singleton]
    split_ifs with hfull
    · rw [List.drop_drop]
      congr 1
      omega
    · rfl

theorem window_append {xs ys : List α} {n : ℕ} (hn : n ≤ xs.length) :
    window cap keep (xs ++ ys) n = window cap keep xs n := by
  rw [window, window, List.take_append_of_le_length hn]

/-- What is searched is the buffer with the new item. -/
theorem held_window (hk : keep < cap) (xs : List α) (x : α) :
    window cap keep (xs ++ [x]) (xs.length + 1) = held cap keep xs ++ [x] := by
  have hle : start cap keep (xs.length + 1) ≤ xs.length := start_le_length xs
  have htake : (xs ++ [x]).take (xs.length + 1) = xs ++ [x] := List.take_of_length_le (by simp)
  rw [window, htake, List.drop_append_of_le_length hle, held_eq hk]

theorem window_sub (xs : List α) (n : ℕ) : window cap keep xs n <:+: xs :=
  (List.drop_suffix _ _).isInfix.trans (List.take_prefix _ _).isInfix

/-- **The tail is long enough**: what ends at item `n`, and is no longer than the tail and one
item, is in the window. -/
theorem suffix_window {tok xs : List α} {n : ℕ} (hlen : tok.length ≤ keep + 1)
    (hn : n ≤ xs.length) (htok : tok <:+ xs.take n) : tok <:+ window cap keep xs n := by
  have hstart : start cap keep n ≤ n - (keep + 1) := start_le n
  have htok' := htok.length_le
  rw [List.length_take_of_le hn] at htok'
  have hwin : (window cap keep xs n).length = n - start cap keep n := by
    unfold window
    rw [List.length_drop, List.length_take_of_le hn]
  have hle : tok.length ≤ (window cap keep xs n).length := by omega
  exact List.suffix_of_suffix_length_le htok (List.drop_suffix _ _) hle

/-! ## Searches that stop early -/

variable (cap keep) in
/-- **Some search has found the token** in what it could see. -/
def Seen (p : α → Bool) (tok xs : List α) : Prop :=
  ∃ n ≤ xs.length, tok <:+: (window cap keep xs n).takeWhile p

variable {p : α → Bool} {tok : List α}

theorem seen_concat (xs : List α) (x : α) :
    Seen cap keep p tok (xs ++ [x]) ↔ Seen cap keep p tok xs ∨
      tok <:+: (window cap keep (xs ++ [x]) (xs.length + 1)).takeWhile p := by
  constructor
  · rintro ⟨n, hn, htok⟩
    rw [List.length_append, List.length_singleton] at hn
    rcases Nat.eq_or_lt_of_le hn with rfl | hlt
    · exact .inr htok
    · rw [window_append (by omega)] at htok
      exact .inl ⟨n, by omega, htok⟩
  · rintro (⟨n, hn, htok⟩ | htok)
    · refine ⟨n, by simp; omega, ?_⟩
      rwa [window_append hn]
    · exact ⟨xs.length + 1, by simp, htok⟩

/-- What a search finds has nothing before it that ends the search. -/
theorem finds_iff {xs : List α} (htok : ∀ x ∈ tok, p x = true) :
    tok <:+: xs.takeWhile p ↔ ∃ pre post, xs = pre ++ tok ++ post ∧ ∀ x ∈ pre, p x = true := by
  constructor
  · rintro ⟨pre, post, hsplit⟩
    refine ⟨pre, post ++ xs.dropWhile p, ?_, ?_⟩
    · rw [← List.append_assoc, hsplit, List.takeWhile_append_dropWhile]
    · intro x hx
      have hmem : x ∈ xs.takeWhile p := by
        rw [← hsplit, List.append_assoc]
        exact List.mem_append_left _ hx
      exact List.mem_takeWhile_imp hmem
  · rintro ⟨pre, post, rfl, hpre⟩
    have hall : ∀ x ∈ pre ++ tok, p x = true := fun x hx =>
      (List.mem_append.1 hx).elim (hpre x) (htok x)
    rw [List.takeWhile_append_of_pos hall]
    exact ⟨pre, _, rfl⟩

/-- What a search finds is in the stream. -/
theorem Seen.inside {xs : List α} (h : Seen cap keep p tok xs) : tok <:+: xs := by
  obtain ⟨n, -, htok⟩ := h
  exact htok.trans ((List.takeWhile_prefix _).isInfix.trans (window_sub xs n))

/-- **Where no item ends a search**, everything in the stream is found. -/
theorem seen_iff {xs : List α} (hp : ∀ x ∈ xs, p x = true) (hlen : tok.length ≤ keep + 1) :
    Seen cap keep p tok xs ↔ tok <:+: xs := by
  refine ⟨Seen.inside, ?_⟩
  rintro ⟨pre, post, rfl⟩
  have hn : (pre ++ tok).length ≤ (pre ++ tok ++ post).length := by simp
  refine ⟨(pre ++ tok).length, hn, ?_⟩
  have hall : ∀ x ∈ window cap keep (pre ++ tok ++ post) (pre ++ tok).length, p x = true :=
    fun x hx => hp x ((window_sub _ _).subset hx)
  rw [List.takeWhile_eq_self_iff.2 hall]
  apply (suffix_window hlen hn _).isInfix
  rw [List.take_left]
  exact List.suffix_append _ _

/-- **A token that was not in the stream before** is found with its last item exactly when
nothing in the buffer ends the search. -/
theorem found_iff (hk : keep < cap) {xs : List α} {x : α} (hlen : tok.length ≤ keep + 1)
    (hnew : ¬ tok <:+: xs) :
    tok <:+: (window cap keep (xs ++ [x]) (xs.length + 1)).takeWhile p ↔
      tok <:+ xs ++ [x] ∧ ∀ y ∈ window cap keep (xs ++ [x]) (xs.length + 1), p y = true := by
  have htake : (xs ++ [x]).take (xs.length + 1) = xs ++ [x] := List.take_of_length_le (by simp)
  constructor
  · intro htok
    have hin : tok <:+: xs ++ [x] :=
      htok.trans ((List.takeWhile_prefix _).isInfix.trans (window_sub _ _))
    refine ⟨(List.infix_concat_iff.1 hin).resolve_right hnew, ?_⟩
    by_contra hall
    -- what ends the search stands before the last item, or is the last item
    have hheld : (window cap keep (xs ++ [x]) (xs.length + 1)).takeWhile p <:+:
        held cap keep xs := by
      rw [held_window hk] at hall ⊢
      rw [List.takeWhile_append]
      split_ifs with hfull
      · have hself : (held cap keep xs).takeWhile p = held cap keep xs :=
          (List.takeWhile_prefix p).eq_of_length hfull
        have hx : p x ≠ true := by
          intro hx
          apply hall
          intro y hy
          rcases List.mem_append.1 hy with hy | hy
          · exact List.takeWhile_eq_self_iff.1 hself y hy
          · rw [List.mem_singleton.1 hy]
            exact hx
        rw [List.takeWhile_cons_of_neg hx, List.append_nil]
      · exact (List.takeWhile_prefix p).isInfix
    apply hnew
    rw [held_eq hk] at hheld
    exact htok.trans (hheld.trans (List.drop_suffix _ _).isInfix)
  · rintro ⟨hsuf, hall⟩
    rw [List.takeWhile_eq_self_iff.2 hall]
    apply (suffix_window hlen (by simp) _).isInfix
    rwa [htake]

end Sliding
