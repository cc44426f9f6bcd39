import Mathlib.Data.List.Basic
import Mathlib.Data.List.Infix
import Mathlib.Data.List.Nodup
import Mathlib.Data.List.ReduceOption
import Mathlib.Tactic.Ring
import Mathlib.Tactic.Linarith

/-!
# Marker-and-length framing of a stream

A frame starts with a marker, carries its total length in a header of fixed size,
and is followed directly by the next one. `Framing.step` is the scanner that hunts
for the marker one symbol at a time and then trusts the length; on a mismatch it
restarts at one or none, which is exact because the symbols of the marker differ.

* `run_marker`: whatever was matched before, feeding the marker completes it at its
  last symbol.
* `run_free`: a text without the marker never completes it.
* `run_frame`, `run_bogus`: a frame is emitted at its last symbol; a header with an
  impossible length is dropped at its last symbol.
* `resync`: from any state, over back-to-back frames, at most one stale frame is
  emitted, and every frame that starts late enough is.
-/

/-- What a framed stream looks like: the marker, the header size, the largest frame,
and how the header states the total length. -/
structure Framing (α : Type*) where
  marker : List α
  hdr : ℕ
  max : ℕ
  want : List α → ℕ
  nodup : marker.Nodup
  marker_ne : marker ≠ []
  marker_lt : marker.length < hdr
  hdr_le : hdr ≤ max
  want_take : ∀ l, hdr ≤ l.length → want l = want (l.take hdr)

/-- The scanner: hunting with `m` symbols of the marker matched, or filling a frame
whose symbols so far are `acc`. -/
inductive Scan (α : Type*) where
  | hunt (m : ℕ)
  | fill (acc : List α)
  deriving DecidableEq, Repr

namespace Framing

variable {α : Type*} (F : Framing α)

theorem marker_pos : 0 < F.marker.length := List.length_pos_of_ne_nil F.marker_ne

section

variable [DecidableEq α]

/-- How many symbols of the marker are matched after one more symbol. -/
def next (m : ℕ) (b : α) : ℕ :=
  if F.marker[m]? = some b then m + 1 else if F.marker[0]? = some b then 1 else 0

/-- One symbol: the next state, and the frame it completes, if any. -/
def step : Scan α → α → Scan α × Option (List α)
  | .hunt m, b =>
    if F.next m b = F.marker.length then (.fill F.marker, none) else (.hunt (F.next m b), none)
  | .fill acc, b =>
    if (acc ++ [b]).length < F.hdr then (.fill (acc ++ [b]), none)
    else if F.want (acc ++ [b]) < F.hdr ∨ F.max < F.want (acc ++ [b]) then (.hunt 0, none)
    else if (acc ++ [b]).length < F.want (acc ++ [b]) then (.fill (acc ++ [b]), none)
    else (.hunt 0, some (acc ++ [b]))

/-- Feed symbols; the outputs stand at the symbols that made them. -/
def run : Scan α → List α → Scan α × List (Option (List α))
  | s, [] => (s, [])
  | s, b :: bs => ((run (F.step s b).1 bs).1, (F.step s b).2 :: (run (F.step s b).1 bs).2)

end

/-- A frame: the marker first, an admissible length, and that length stated. -/
structure IsFrame (f : List α) : Prop where
  marker : F.marker <+: f
  ge : F.hdr ≤ f.length
  le : f.length ≤ F.max
  want : F.want f = f.length

/-- A header that states an impossible length. -/
structure IsBogus (h : List α) : Prop where
  marker : F.marker <+: h
  len : h.length = F.hdr
  want : F.want h < F.hdr ∨ F.max < F.want h

/-- A text in which the marker does not occur. -/
def Free (g : List α) : Prop := ¬ F.marker <:+: g

/-- A frame in which the marker occurs at its start only. -/
structure IsClean (f : List α) : Prop extends F.IsFrame f where
  once : ∀ i, F.marker <+: f.drop i → i = 0

/-- The outputs over a frame: nothing until its last symbol. -/
def outs (f : List α) : List (Option (List α)) := List.replicate (f.length - 1) none ++ [some f]

/-- The outputs over a text that completes nothing. -/
def silent (g : List α) : List (Option (List α)) := List.replicate g.length none

variable {F} [DecidableEq α]

@[simp] theorem run_nil (s : Scan α) : F.run s [] = (s, []) := rfl

theorem run_cons (s : Scan α) (b : α) (bs : List α) :
    F.run s (b :: bs) =
      ((F.run (F.step s b).1 bs).1, (F.step s b).2 :: (F.run (F.step s b).1 bs).2) := rfl

theorem run_append (s : Scan α) (a b : List α) :
    F.run s (a ++ b) = ((F.run (F.run s a).1 b).1, (F.run s a).2 ++ (F.run (F.run s a).1 b).2) := by
  induction a generalizing s with
  | nil => simp
  | cons x a ih => simp only [List.cons_append, run_cons, ih]

/-- Two runs in a row, each known. -/
theorem run_trans {s t u : Scan α} {a b : List α} {o p : List (Option (List α))}
    (h1 : F.run s a = (t, o)) (h2 : F.run t b = (u, p)) : F.run s (a ++ b) = (u, o ++ p) := by
  rw [run_append, h1, h2]

/-! ## Hunting -/

/-- The marker's own next symbol extends the match. -/
theorem next_hit {m : ℕ} {b : α} (h : F.marker[m]? = some b) : F.next m b = m + 1 := by
  unfold next; rw [if_pos h]

/-- The first symbol of the marker leaves a match of one, whatever was matched before. -/
theorem next_first {m : ℕ} {b : α} (h : F.marker[0]? = some b) : F.next m b = 1 := by
  unfold next
  split
  · rename_i hm
    -- the symbols differ, so only position `0` holds `b`
    have : m = 0 := by
      by_contra hne
      obtain ⟨h1, e1⟩ := List.getElem?_eq_some_iff.1 hm
      obtain ⟨h2, e2⟩ := List.getElem?_eq_some_iff.1 h
      exact hne (F.nodup.getElem_inj_iff.1 (e1.trans e2.symm))
    omega
  · rfl

theorem next_le {m : ℕ} (hm : m < F.marker.length) (b : α) : F.next m b ≤ F.marker.length := by
  have := F.marker_pos
  unfold next; split_ifs <;> omega

/-- The rest of the marker, once `k` of its symbols are matched. -/
theorem run_marker_drop : ∀ (n k : ℕ), k + n = F.marker.length → 0 < n →
    F.run (.hunt k) (F.marker.drop k) = (.fill F.marker, List.replicate n none) := by
  intro n
  induction n with
  | zero => intro k _ h; omega
  | succ n ih =>
    intro k hk _
    have hlt : k < F.marker.length := by omega
    have hnext : F.next k F.marker[k] = k + 1 := next_hit (List.getElem?_eq_getElem hlt)
    rw [List.drop_eq_getElem_cons hlt, run_cons]
    simp only [step, hnext]
    rcases Nat.eq_zero_or_pos n with h0 | hpos
    · subst h0
      rw [if_pos (by omega), List.drop_eq_nil_of_le (by omega)]; rfl
    · rw [if_neg (by omega)]
      simp only
      rw [ih (k + 1) (by omega) hpos]; rfl

/-- **The marker is always found**, whatever part of it seemed matched before. -/
theorem run_marker (m : ℕ) :
    F.run (.hunt m) F.marker = (.fill F.marker, silent F.marker) := by
  have hpos := F.marker_pos
  have hcons : F.marker = F.marker[0] :: F.marker.drop 1 := by
    conv_lhs => rw [← List.drop_zero (l := F.marker), List.drop_eq_getElem_cons hpos]
  have h0 : F.marker[0]? = some F.marker[0] := List.getElem?_eq_getElem hpos
  have key := run_marker_drop (F := F) F.marker.length 0 (by omega) hpos
  rw [List.drop_zero] at key
  unfold silent
  rw [← key]
  -- the first symbol sends both starting points to the same state
  have hstep : F.step (.hunt m) F.marker[0] = F.step (.hunt 0) F.marker[0] := by
    simp only [step, next_first h0]
  conv_lhs => rw [hcons]
  conv_rhs => rw [hcons]
  rw [run_cons, run_cons, hstep]

/-- What a match of `m` stands for: the text so far ends with those `m` symbols. -/
theorem next_suffix {h : List α} {m : ℕ} (hm : F.marker.take m <:+ h) (b : α) :
    F.marker.take (F.next m b) <:+ h ++ [b] := by
  unfold next
  split_ifs with h1 h2
  · obtain ⟨hlt, rfl⟩ := List.getElem?_eq_some_iff.1 h1
    obtain ⟨t, rfl⟩ := hm
    exact ⟨t, by rw [List.take_add_one, List.getElem?_eq_getElem hlt]; simp⟩
  · obtain ⟨hlt, rfl⟩ := List.getElem?_eq_some_iff.1 h2
    exact ⟨h, by rw [List.take_one, List.head?_eq_getElem?, h2]; rfl⟩
  · simp

/-- **Hunting over a text without the marker completes nothing.** -/
theorem run_free_from : ∀ (g h : List α) (m : ℕ), m < F.marker.length → F.marker.take m <:+ h →
    F.Free (h ++ g) → ∃ m' < F.marker.length, F.run (.hunt m) g = (.hunt m', silent g) := by
  intro g
  induction g with
  | nil => intro h m hm _ _; exact ⟨m, hm, rfl⟩
  | cons b g ih =>
    intro h m hm hs hfree
    have hs' := next_suffix hs b
    -- a completed match would be a marker in the text
    have hne : F.next m b ≠ F.marker.length := by
      intro he
      rw [he, List.take_length] at hs'
      obtain ⟨t, ht⟩ := hs'
      exact hfree ⟨t, g, by rw [ht]; simp⟩
    have hlt : F.next m b < F.marker.length := lt_of_le_of_ne (next_le hm b) hne
    obtain ⟨m', hm', hrun⟩ := ih (h ++ [b]) (F.next m b) hlt hs' (by simpa using hfree)
    refine ⟨m', hm', ?_⟩
    rw [run_cons]
    simp only [step, if_neg hne, hrun]
    rfl

theorem run_free {g : List α} (hg : F.Free g) :
    ∃ m < F.marker.length, F.run (.hunt 0) g = (.hunt m, silent g) :=
  run_free_from g [] 0 F.marker_pos (by simp) (by simpa using hg)

/-! ## Filling -/

omit [DecidableEq α] in
/-- The stated length is known once the header is in. -/
theorem want_eq_of_le {acc f : List α} (h : acc <+: f) (hl : F.hdr ≤ acc.length) :
    F.want acc = F.want f := by
  obtain ⟨t, rfl⟩ := h
  rw [F.want_take acc hl, F.want_take (acc ++ t) (by simp; omega), List.take_append_of_le_length hl]

/-- The rest of a frame, once its first symbols are in. -/
theorem run_fill {f : List α} (hf : F.IsFrame f) : ∀ (rest acc : List α), acc ++ rest = f → rest ≠ [] →
    F.run (.fill acc) rest = (.hunt 0, List.replicate (rest.length - 1) none ++ [some f]) := by
  intro rest
  induction rest with
  | nil => intro acc _ h; exact absurd rfl h
  | cons b rest ih =>
    intro acc hacc _
    have hp : acc ++ [b] <+: f := ⟨rest, by rw [← hacc]; simp⟩
    have hlen : f.length = acc.length + 1 + rest.length := by rw [← hacc]; simp; omega
    have hge := hf.ge
    have hle := hf.le
    -- from the header on, the stated length is the frame's
    have hwant : F.hdr ≤ (acc ++ [b]).length → F.want (acc ++ [b]) = f.length := fun h => by
      rw [want_eq_of_le hp h, hf.want]
    rw [run_cons]
    by_cases hr : rest = []
    · -- the last symbol: the header is in and the stated length is met
      subst hr
      have hw := hwant (by simp at hlen ⊢; omega)
      have hfull : acc ++ [b] = f := hacc
      simp only [step, hw]
      rw [if_neg (by simp at hlen ⊢; omega), if_neg (by omega), if_neg (by simp at hlen ⊢; omega), hfull]
      rfl
    · have hpos : 0 < rest.length := List.length_pos_of_ne_nil hr
      have hstep : F.step (.fill acc) b = (.fill (acc ++ [b]), none) := by
        simp only [step]
        -- the length is not known yet, or not met yet
        by_cases hh : (acc ++ [b]).length < F.hdr
        · rw [if_pos hh]
        · rw [if_neg hh, hwant (by omega), if_neg (by omega), if_pos (by simp; omega)]
      rw [hstep]
      simp only
      rw [ih (acc ++ [b]) (by simpa using hacc) hr]
      obtain ⟨n, hn⟩ : ∃ n, rest.length = n + 1 := ⟨rest.length - 1, by omega⟩
      simp [hn, List.replicate_succ]

/-- The rest of a header with an impossible length. -/
theorem run_fill_bogus {h : List α} (hh : F.IsBogus h) : ∀ (rest acc : List α), acc ++ rest = h →
    rest ≠ [] → F.run (.fill acc) rest = (.hunt 0, silent rest) := by
  intro rest
  induction rest with
  | nil => intro acc _ h; exact absurd rfl h
  | cons b rest ih =>
    intro acc hacc _
    have hlen : F.hdr = acc.length + 1 + rest.length := by rw [← hh.len, ← hacc]; simp; omega
    rw [run_cons]
    by_cases hr : rest = []
    · subst hr
      -- the last symbol of the header: the length is impossible
      have hfull : acc ++ [b] = h := hacc
      simp only [step]
      rw [if_neg (by simp at hlen ⊢; omega), hfull, if_pos hh.want]
      rfl
    · have hpos : 0 < rest.length := List.length_pos_of_ne_nil hr
      have hstep : F.step (.fill acc) b = (.fill (acc ++ [b]), none) := by
        simp only [step]
        rw [if_pos (by simp; omega)]
      rw [hstep]
      simp only
      rw [ih (acc ++ [b]) (by simpa using hacc) hr]
      rfl

/-- **A frame is emitted at its last symbol**, from any hunting state. -/
theorem run_frame {f : List α} (hf : F.IsFrame f) (m : ℕ) :
    F.run (.hunt m) f = (.hunt 0, outs f) := by
  obtain ⟨t, ht⟩ := hf.marker
  have hne : t ≠ [] := by
    rintro rfl
    have := F.marker_lt
    have := hf.ge
    rw [← ht] at this
    simp at this; omega
  have hpos : 0 < t.length := List.length_pos_of_ne_nil hne
  have h := run_trans (run_marker m) (run_fill hf t F.marker ht hne)
  rw [ht] at h
  rw [h]
  congr 1
  unfold silent outs
  rw [← List.append_assoc, List.replicate_append_replicate]
  congr 2
  rw [← ht]; simp; omega

/-- **A header with an impossible length is dropped at its last symbol.** -/
theorem run_bogus {h : List α} (hh : F.IsBogus h) (m : ℕ) :
    F.run (.hunt m) h = (.hunt 0, silent h) := by
  obtain ⟨t, ht⟩ := hh.marker
  have hne : t ≠ [] := by
    rintro rfl
    have := F.marker_lt
    have := hh.len
    rw [← ht] at this
    simp at this; omega
  have h' := run_trans (run_marker m) (run_fill_bogus hh t F.marker ht hne)
  rw [ht] at h'
  rw [h']
  unfold silent
  rw [List.replicate_append_replicate, ← ht, List.length_append]

/-! ## Streams -/

/-- A gap: a text without the marker, then any number of headers with impossible
lengths, each followed by a text without the marker. -/
inductive IsGap (F : Framing α) : List α → Prop
  | free {g : List α} (hg : F.Free g) : IsGap F g
  | bogus {g h t : List α} (hg : IsGap F g) (hh : F.IsBogus h) (ht : F.Free t) : IsGap F (g ++ h ++ t)

/-- A stream: frames, each after its gap, and a last gap. -/
def stream (ps : List (List α × List α)) (last : List α) : List α :=
  (ps.map fun p => p.1 ++ p.2).flatten ++ last

/-- The outputs over a stream: each frame at its last symbol, and nothing else. -/
def streamOuts (ps : List (List α × List α)) (last : List α) : List (Option (List α)) :=
  (ps.map fun p => silent p.1 ++ outs p.2).flatten ++ silent last

omit [DecidableEq α] in
theorem silent_append (g h : List α) : silent (g ++ h) = silent g ++ silent h := by
  unfold silent; rw [List.length_append, List.replicate_add]

theorem run_gap {g : List α} (hg : F.IsGap g) :
    ∃ m < F.marker.length, F.run (.hunt 0) g = (.hunt m, silent g) := by
  induction hg with
  | free hg => exact run_free hg
  | bogus hg hh ht ih =>
    obtain ⟨m, -, hm⟩ := ih
    obtain ⟨m', hlt, hm'⟩ := run_free ht
    refine ⟨m', hlt, ?_⟩
    rw [silent_append, silent_append]
    exact run_trans (run_trans hm (run_bogus hh m)) hm'

/-- **A stream of frames in gaps gives exactly its frames**, each at its last symbol. -/
theorem run_stream {last : List α} (hlast : F.IsGap last) : ∀ (ps : List (List α × List α)),
    (∀ p ∈ ps, F.IsGap p.1 ∧ F.IsFrame p.2) →
    ∃ m < F.marker.length, F.run (.hunt 0) (stream ps last) = (.hunt m, streamOuts ps last) := by
  intro ps
  induction ps with
  | nil => intro _; exact run_gap hlast
  | cons p ps ih =>
    intro h
    obtain ⟨hg, hf⟩ := h p List.mem_cons_self
    obtain ⟨m, -, hm⟩ := run_gap hg
    obtain ⟨m', hlt, hm'⟩ := ih (fun q hq => h q (List.mem_cons_of_mem _ hq))
    refine ⟨m', hlt, ?_⟩
    have := run_trans (run_trans hm (run_frame hf m)) hm'
    simpa only [stream, streamOuts, List.map_cons, List.flatten_cons, List.append_assoc] using this

/-- The outputs over back-to-back frames. -/
theorem run_frames : ∀ (fs : List (List α)) (m : ℕ), (∀ f ∈ fs, F.IsFrame f) →
    (F.run (.hunt m) fs.flatten).2 = (fs.map outs).flatten := by
  intro fs
  induction fs with
  | nil => intro m _; rfl
  | cons f fs ih =>
    intro m h
    have hf := run_frame (h f List.mem_cons_self) m
    rw [List.flatten_cons, run_append, hf]
    simp only [List.map_cons, List.flatten_cons]
    rw [ih 0 (fun x hx => h x (List.mem_cons_of_mem _ hx))]

/-! ## What an emitted frame is -/

/-- A state the scanner can be in. -/
def Ok (F : Framing α) : Scan α → Prop
  | .hunt m => m < F.marker.length
  | .fill acc => F.marker <+: acc ∧
      (F.hdr ≤ acc.length → F.hdr ≤ F.want acc ∧ F.want acc ≤ F.max ∧ acc.length < F.want acc)

theorem step_ok {s : Scan α} (hs : F.Ok s) (b : α) : F.Ok (F.step s b).1 := by
  cases s with
  | hunt m =>
    simp only [step]
    split
    · exact ⟨List.prefix_rfl, fun h => absurd F.marker_lt (by omega)⟩
    · rename_i hne
      exact lt_of_le_of_ne (next_le hs b) hne
  | fill acc =>
    have hp : F.marker <+: acc ++ [b] := hs.1.trans (List.prefix_append _ _)
    simp only [step]
    split_ifs with h1 h2 h3
    · exact ⟨hp, fun h => absurd h (by omega)⟩
    · exact F.marker_pos
    · exact ⟨hp, fun _ => ⟨by omega, by omega, h3⟩⟩
    · exact F.marker_pos

/-- The symbols a state holds are the last of the text `h`. -/
def Tracks (F : Framing α) (h : List α) : Scan α → Prop
  | .hunt m => F.marker.take m <:+ h
  | .fill acc => acc <:+ h

/-- One symbol: the state keeps track, and an emitted frame is a frame and is the last
of the text. -/
theorem step_tracks {h : List α} {s : Scan α} (hok : F.Ok s) (ht : F.Tracks h s) (b : α) :
    F.Tracks (h ++ [b]) (F.step s b).1 ∧
      ∀ f, (F.step s b).2 = some f →
        F.IsFrame f ∧ f <:+ h ++ [b] ∧ (F.step s b).1 = .hunt 0 := by
  cases s with
  | hunt m =>
    have hn := next_suffix ht b
    simp only [step]
    split
    · rename_i he
      rw [he, List.take_length] at hn
      exact ⟨hn, fun f hf => by simp at hf⟩
    · exact ⟨hn, fun f hf => by simp at hf⟩
  | fill acc =>
    have hp : F.marker <+: acc ++ [b] := hok.1.trans (List.prefix_append _ _)
    have hs : acc ++ [b] <:+ h ++ [b] := by
      obtain ⟨t, rfl⟩ := ht
      exact ⟨t, by simp⟩
    simp only [step]
    split_ifs with h1 h2 h3
    · exact ⟨hs, fun f hf => by simp at hf⟩
    · exact ⟨by simp [Tracks], fun f hf => by simp at hf⟩
    · exact ⟨hs, fun f hf => by simp at hf⟩
    · refine ⟨by simp [Tracks], fun f hf => ?_⟩
      simp only [Option.some.injEq] at hf
      subst hf
      -- the length was short of the stated one before this symbol, so now it meets it
      have hlen : (acc ++ [b]).length = F.want (acc ++ [b]) := by
        have hl : (acc ++ [b]).length = acc.length + 1 := by simp
        by_cases hh : F.hdr ≤ acc.length
        · have hw := want_eq_of_le (List.prefix_append acc [b]) hh
          have := (hok.2 hh).2.2
          omega
        · omega
      exact ⟨⟨hp, by omega, by omega, hlen.symm⟩, hs, rfl⟩

/-- What is emitted from a state the scanner can be in is a frame. -/
theorem step_frame {s : Scan α} (hok : F.Ok s) {b : α} {f : List α} (he : (F.step s b).2 = some f) :
    F.IsFrame f := by
  have htext : ∃ h, F.Tracks h s := by
    cases s with
    | hunt m => exact ⟨F.marker.take m, List.suffix_rfl⟩
    | fill acc => exact ⟨acc, List.suffix_rfl⟩
  obtain ⟨h, ht⟩ := htext
  exact ((step_tracks hok ht b).2 f he).1

/-- **Soundness.** Whatever the text, it is cut into the emitted frames and the rest
between them: each emitted frame is a frame, they are disjoint and in order, and each is
emitted at its last symbol. -/
theorem run_split (bs : List α) :
    ∃ ps last, bs = stream ps last ∧ (F.run (.hunt 0) bs).2 = streamOuts ps last ∧
      (∀ p ∈ ps, F.IsFrame p.2) ∧ F.Ok (F.run (.hunt 0) bs).1 ∧
      F.Tracks last (F.run (.hunt 0) bs).1 := by
  induction bs using List.reverseRecOn with
  | nil => exact ⟨[], [], rfl, rfl, by simp, F.marker_pos, by simp [Tracks]⟩
  | append_singleton bs b ih =>
    obtain ⟨ps, last, hbs, hout, hps, hok, htr⟩ := ih
    obtain ⟨htr', hemit⟩ := step_tracks hok htr b
    rw [run_append]
    simp only [run_cons, run_nil]
    cases ho : (F.step (F.run (.hunt 0) bs).1 b).2 with
    | none =>
      -- the symbol goes to the text after the last frame
      refine ⟨ps, last ++ [b], by rw [hbs]; simp [stream], ?_, hps, step_ok hok b, htr'⟩
      rw [hout]
      simp only [streamOuts, silent_append, List.append_assoc]
      rfl
    | some f =>
      -- the text after the last frame, with the symbol, is a gap `g` and the frame
      obtain ⟨hf, ⟨g, hg⟩, hhunt⟩ := hemit f ho
      have hlast : last.length = g.length + (f.length - 1) := by
        have := congrArg List.length hg
        have := hf.ge
        have := F.marker_lt
        simp at *; omega
      refine ⟨ps ++ [(g, f)], [], ?_, ?_, ?_, step_ok hok b, by rw [hhunt]; simp [Tracks]⟩
      · rw [hbs]; simp [stream, ← hg]
      · rw [hout]
        simp only [streamOuts, List.map_append, List.map_cons, List.map_nil, List.flatten_append,
          List.flatten_cons, List.flatten_nil, List.append_nil, List.append_assoc, silent, outs,
          hlast, List.replicate_add, List.length_nil, List.replicate_zero]
      · intro p hp
        rcases List.mem_append.1 hp with h | h
        · exact hps p h
        · rw [List.mem_singleton.1 h]; exact hf

/-! ## Recovery from any state -/

/-- **A stale frame does not last.** From a filling state, either the text is too short
to end the frame, or the scanner is hunting again within `max` symbols of the frame's
start, having emitted at most one frame. -/
theorem fill_ends : ∀ (text acc : List α), F.Ok (.fill acc) →
    (F.run (.fill acc) text).2 = silent text ∧ acc.length + text.length < F.max ∨
    ∃ a b o, text = a ++ b ∧ acc.length + a.length ≤ F.max ∧
      F.run (.fill acc) a = (.hunt 0, o) ∧ o.reduceOption.length ≤ 1 := by
  intro text
  induction text with
  | nil =>
    intro acc h
    have := F.hdr_le
    left
    refine ⟨rfl, ?_⟩
    by_cases hl : F.hdr ≤ acc.length
    · have := h.2 hl; simp; omega
    · simp; omega
  | cons x text ih =>
    intro acc h
    have hok := step_ok h x
    have hle := F.hdr_le
    have hacc : acc.length < F.max := by
      by_cases hl : F.hdr ≤ acc.length
      · have := h.2 hl; omega
      · omega
    -- the symbol ends the frame, or the scanner goes on filling
    have hcases : F.step (.fill acc) x = (.fill (acc ++ [x]), none) ∨
        ∃ o, F.step (.fill acc) x = (.hunt 0, o) := by
      simp only [step]; split_ifs <;> simp
    rcases hcases with hs | ⟨o, hs⟩
    · rw [hs] at hok
      have hlen : (acc ++ [x]).length = acc.length + 1 := by simp
      rcases ih (acc ++ [x]) hok with ⟨h1, h2⟩ | ⟨a, b, o, ht, hl, hr, ho⟩
      · left
        rw [run_cons, hs]
        simp only
        rw [h1]
        exact ⟨rfl, by simp at h2 ⊢; omega⟩
      · right
        refine ⟨x :: a, b, none :: o, by rw [ht]; rfl, by simp at hl ⊢; omega, ?_,
          by rwa [List.reduceOption_cons_of_none]⟩
        rw [run_cons, hs]
        simp only
        rw [hr]
    · -- it ends with this symbol, with a frame or without
      right
      refine ⟨[x], text, [o], rfl, by simp; omega, ?_, ?_⟩
      · rw [run_cons, hs]; rfl
      · cases o <;> simp

omit [DecidableEq α] in
/-- A cut through back-to-back clean frames leaves the rest of one frame, in which the
marker does not occur, and then whole frames. -/
theorem cut_frames : ∀ (fs : List (List α)) (a b : List α), (∀ f ∈ fs, F.IsClean f) →
    fs.flatten = a ++ b → ∃ k res, b = res ++ (fs.drop k).flatten ∧ F.Free res ∧
      ∀ i, a.length ≤ (fs.take i).flatten.length → k ≤ i := by
  have hnil : F.Free [] := fun h => F.marker_ne (List.eq_nil_of_infix_nil h)
  intro fs
  induction fs with
  | nil =>
    intro a b _ h
    have hb : b = [] := (List.append_eq_nil_iff.1 h.symm).2
    exact ⟨0, [], by simp [hb], hnil, fun i _ => Nat.zero_le i⟩
  | cons f fs ih =>
    intro a b hc h
    by_cases ha : a = []
    · subst ha
      exact ⟨0, [], by simpa using h.symm, hnil, fun i _ => Nat.zero_le i⟩
    have hapos : 0 < a.length := List.length_pos_of_ne_nil ha
    rw [List.flatten_cons] at h
    rcases List.append_eq_append_iff.1 h with ⟨a', rfl, hb⟩ | ⟨c, hf, hb⟩
    · -- the whole of `f` is before the cut
      obtain ⟨k, res, h1, h2, h3⟩ := ih a' b (fun x hx => hc x (List.mem_cons_of_mem _ hx)) hb
      refine ⟨k + 1, res, h1, h2, ?_⟩
      intro i hi
      rcases i with _ | i
      · exact absurd (by simpa using hi) ha
      · have := h3 i (by simpa using hi); omega
    · -- the cut is inside `f`
      refine ⟨1, c, by simpa using hb, ?_, ?_⟩
      · rintro ⟨u, v, huv⟩
        have hdrop : F.marker <+: f.drop (a.length + u.length) := by
          rw [hf, ← huv, ← List.append_assoc, ← List.append_assoc, ← List.length_append,
            List.append_assoc (a ++ u), List.drop_left]
          exact List.prefix_append _ _
        have := (hc f List.mem_cons_self).once _ hdrop
        omega
      · intro i hi
        rcases i with _ | i
        · simp at hi; exact absurd hi ha
        · omega

omit [DecidableEq α] in
theorem silent_reduceOption (g : List α) : (silent g).reduceOption = [] := by
  unfold silent; simp [List.reduceOption]

omit [DecidableEq α] in
theorem outs_reduceOption (fs : List (List α)) : (fs.map outs).flatten.reduceOption = fs := by
  induction fs with
  | nil => rfl
  | cons f fs ih =>
    simp [List.reduceOption_append, outs, ih, List.reduceOption_replicate_none]

omit [DecidableEq α] in
theorem streamOuts_reduceOption (ps : List (List α × List α)) (last : List α) :
    (streamOuts ps last).reduceOption = ps.map Prod.snd := by
  induction ps with
  | nil => exact silent_reduceOption last
  | cons p ps ih =>
    have hcons : streamOuts (p :: ps) last = silent p.1 ++ outs p.2 ++ streamOuts ps last := by
      simp only [streamOuts, List.map_cons, List.flatten_cons, List.append_assoc]
    have hout : (outs p.2).reduceOption = [p.2] := by
      simpa only [List.map_cons, List.map_nil, List.flatten_cons, List.flatten_nil, List.append_nil]
        using outs_reduceOption [p.2]
    rw [hcons, List.reduceOption_append, List.reduceOption_append, silent_reduceOption, hout, ih]
    rfl

/-- **Recovery.** From any state, over back-to-back frames in which the marker occurs at
the start only, the emitted frames are at most one stale frame and then all the frames
of the stream from some point on, at the latest from the first one that starts `max`
symbols after the stale frame did. -/
theorem resync {s : Scan α} (hs : F.Ok s) {fs : List (List α)} (hfs : ∀ f ∈ fs, F.IsClean f) :
    ∃ stale k, (F.run s fs.flatten).2.reduceOption = stale ++ fs.drop k ∧ stale.length ≤ 1 ∧
      ∀ i < fs.length, F.max - F.marker.length ≤ (fs.take i).flatten.length → k ≤ i := by
  have hframes : ∀ f ∈ fs, F.IsFrame f := fun f hf => (hfs f hf).toIsFrame
  cases s with
  | hunt m =>
    refine ⟨[], 0, ?_, by simp, fun i _ _ => Nat.zero_le i⟩
    rw [run_frames fs m hframes, outs_reduceOption]; rfl
  | fill acc =>
    have hacc : F.marker.length ≤ acc.length := hs.1.length_le
    rcases fill_ends fs.flatten acc hs with ⟨h1, h2⟩ | ⟨a, b, o, ht, hl, hr, ho⟩
    · -- the text ends first, so no frame starts late enough to be promised
      refine ⟨[], fs.length, by rw [h1, silent_reduceOption]; simp, by simp, ?_⟩
      intro i hi hlen
      have : (fs.take i).flatten.length ≤ fs.flatten.length := by
        conv_rhs => rw [← List.take_append_drop i fs, List.flatten_append, List.length_append]
        omega
      omega
    · -- the stale frame ends inside some frame, whose rest holds no marker
      obtain ⟨k, res, hb, hfree, hk⟩ := cut_frames fs a b hfs ht
      obtain ⟨m, -, hm⟩ := run_free hfree
      refine ⟨o.reduceOption, k, ?_, ho, fun i _ hi => hk i (by omega)⟩
      rw [ht, run_append, hr, hb]
      simp only
      rw [run_append, hm]
      simp only [List.reduceOption_append, silent_reduceOption, List.nil_append]
      rw [run_frames _ m (fun f hf => hframes f (List.mem_of_mem_drop hf)), outs_reduceOption]

end Framing
