import PresenceNode.Lib.Framing

/-!
# Resuming after a header that is dropped

`Framing.step` has consumed the whole header when it finds its length impossible, and hunts on
behind it. `Framing.scan back` reads ahead instead and resumes `back` symbols after the start of
such a header: the header's size gives what `step` does (`run_scan`), and the marker's length
loses nothing.

* `scan_skip`, `scan_bogus`, `scan_frame`, `scan_part`: the scan, one piece of the text at a time.
* `run_scan`: the scanner that takes one symbol at a time is `scan hdr`.
* `Cuts`, `Dropped`, `Hides`: where an endless text is cut, which headers are dropped, and which
  of those have a frame starting among their own symbols.
* `scan_pass`: the scan that loses nothing goes over everything that starts no frame.
* `run_rescan_iff`: the two agree on every part of an endless text if and only if no header that
  is dropped hides the start of a frame.
-/

namespace Framing

variable {α : Type*} (F : Framing α)

/-- The stated length is one that a frame can have. -/
def Admits (bs : List α) : Prop := F.hdr ≤ F.want bs ∧ F.want bs ≤ F.max

instance (bs : List α) : Decidable (F.Admits bs) := inferInstanceAs (Decidable (_ ∧ _))

theorem drop_shorter (b : α) (rest : List α) (k : ℕ) : (rest.drop k).length < (b :: rest).length := by
  rw [List.length_drop, List.length_cons]
  omega

variable [DecidableEq α]

/-- The scanner that reads ahead, hunting at the first symbol of a text: a header whose length
is impossible is left `back` symbols after its start. -/
def scan (back : ℕ) : List α → List (Option (List α))
  | [] => []
  | b :: rest =>
    if F.marker <+: b :: rest then
      if (b :: rest).length < F.hdr then silent (b :: rest)
      else if F.Admits (b :: rest) then
        if (b :: rest).length < F.want (b :: rest) then silent (b :: rest)
        else outs ((b :: rest).take (F.want (b :: rest))) ++
          scan back (rest.drop (F.want (b :: rest) - 1))
      else silent ((b :: rest).take back) ++ scan back (rest.drop (back - 1))
    else none :: scan back rest
termination_by bs => bs.length
decreasing_by
  · exact drop_shorter b rest _
  · exact drop_shorter b rest _
  · exact drop_shorter b rest 0

variable {F} {back : ℕ} {bs : List α}

/-! ## One piece of a text -/

@[simp] theorem scan_nil : F.scan back [] = [] := by rw [scan]

theorem scan_cons {b : α} (h : ¬ F.marker <+: b :: bs) :
    F.scan back (b :: bs) = none :: F.scan back bs := by rw [scan, if_neg h]

omit [DecidableEq α] in
theorem marker_prefix_ne {bs : List α} (h : F.marker <+: bs) : bs ≠ [] := by
  rintro rfl
  exact F.marker_ne (List.prefix_nil.1 h)

/-- A header whose length is impossible. -/
theorem scan_bogus (hback : 0 < back) (hm : F.marker <+: bs) (hl : F.hdr ≤ bs.length)
    (hb : ¬ F.Admits bs) :
    F.scan back bs = silent (bs.take back) ++ F.scan back (bs.drop back) := by
  cases bs with
  | nil => exact absurd rfl (marker_prefix_ne hm)
  | cons b bs =>
    obtain ⟨k, rfl⟩ : ∃ k, back = k + 1 := ⟨back - 1, by omega⟩
    rw [scan, if_pos hm, if_neg (Nat.not_lt.2 hl), if_neg hb, List.drop_succ_cons,
      Nat.add_sub_cancel]

/-- A frame. -/
theorem scan_frame (hm : F.marker <+: bs) (hl : F.hdr ≤ bs.length) (ha : F.Admits bs)
    (hw : F.want bs ≤ bs.length) : F.scan back bs =
      outs (bs.take (F.want bs)) ++ F.scan back (bs.drop (F.want bs)) := by
  cases bs with
  | nil => exact absurd rfl (marker_prefix_ne hm)
  | cons b bs =>
    have hpos := F.marker_lt
    obtain ⟨k, hk⟩ : ∃ k, F.want (b :: bs) = k + 1 :=
      ⟨F.want (b :: bs) - 1, by have := ha.1; omega⟩
    rw [scan, if_pos hm, if_neg (Nat.not_lt.2 hl), if_pos ha, if_neg (Nat.not_lt.2 hw), hk,
      List.drop_succ_cons, Nat.add_sub_cancel]

/-- The start of a frame that is not whole. -/
theorem scan_part (hm : F.marker <+: bs) (hl : F.hdr ≤ bs.length) (ha : F.Admits bs)
    (hw : bs.length < F.want bs) : F.scan back bs = silent bs := by
  cases bs with
  | nil => exact absurd rfl (marker_prefix_ne hm)
  | cons b bs => rw [scan, if_pos hm, if_neg (Nat.not_lt.2 hl), if_pos ha, if_pos hw]

/-- A text shorter than a header gives nothing. -/
theorem scan_short (h : bs.length < F.hdr) : F.scan back bs = silent bs := by
  induction bs with
  | nil => exact scan_nil
  | cons b bs ih =>
    by_cases hm : F.marker <+: b :: bs
    · rw [scan, if_pos hm, if_pos h]
    · rw [List.length_cons] at h
      rw [scan_cons hm, ih (by omega)]
      rfl

/-- A piece in which no marker starts. -/
theorem scan_skip {k : ℕ} (h : ∀ i < k, ¬ F.marker <+: bs.drop i) :
    F.scan back bs = silent (bs.take k) ++ F.scan back (bs.drop k) := by
  induction k generalizing bs with
  | zero => rfl
  | succ k ih =>
    cases bs with
    | nil => rfl
    | cons b bs =>
      have hrest : ∀ i < k, ¬ F.marker <+: bs.drop i := fun i hi => h (i + 1) (by omega)
      rw [scan_cons (h 0 (by omega)), ih hrest]
      rfl

/-! ## The scanner that takes one symbol at a time -/

/-- The start of a frame, or of a header, that is not whole. -/
theorem run_fill_part : ∀ (rest acc : List α),
    (F.hdr ≤ (acc ++ rest).length →
      F.Admits (acc ++ rest) ∧ (acc ++ rest).length < F.want (acc ++ rest)) →
    (F.run (.fill acc) rest).2 = silent rest := by
  intro rest
  induction rest with
  | nil => intro acc _; rfl
  | cons b rest ih =>
    intro acc h
    have hassoc : acc ++ b :: rest = acc ++ [b] ++ rest := by simp
    rw [hassoc] at h
    have hlen : (acc ++ [b]).length ≤ (acc ++ [b] ++ rest).length := by simp
    have hstep : F.step (.fill acc) b = (.fill (acc ++ [b]), none) := by
      by_cases hh : (acc ++ [b]).length < F.hdr
      · simp only [step, if_pos hh]
      · have hw : F.want (acc ++ [b]) = F.want (acc ++ [b] ++ rest) :=
          want_eq_of_le (List.prefix_append _ _) (by omega)
        obtain ⟨⟨hge, hle⟩, hlt⟩ := h (by omega)
        simp only [step]
        rw [if_neg hh, hw, if_neg (by omega), if_pos (by omega)]
    rw [run_cons, hstep]
    simp only
    rw [ih (acc ++ [b]) h]
    rfl

omit [DecidableEq α] in
/-- What lies before the first marker is free of it. -/
theorem free_take {g : ℕ} (h : ∀ i < g, ¬ F.marker <+: bs.drop i) : F.Free (bs.take g) := by
  rintro ⟨u, v, huv⟩
  have hu : u.length < g := by
    have hlen := congrArg List.length huv
    have hpos := F.marker_pos
    simp only [List.length_append, List.length_take] at hlen
    omega
  have hsplit : bs = u ++ (F.marker ++ (v ++ bs.drop g)) := by
    conv_lhs => rw [← List.take_append_drop g bs, ← huv]
    simp
  refine h u.length hu ⟨v ++ bs.drop g, ?_⟩
  conv_rhs => rw [hsplit]
  rw [List.drop_left]

omit [DecidableEq α] in
/-- The frame at the start of a text. -/
theorem isFrame_take (hm : F.marker <+: bs) (ha : F.Admits bs) (hw : F.want bs ≤ bs.length) :
    F.IsFrame (bs.take (F.want bs)) := by
  have hmk := F.marker_lt
  have hge := ha.1
  have hlen : (bs.take (F.want bs)).length = F.want bs := by rw [List.length_take]; omega
  refine ⟨List.prefix_take_iff.2 ⟨hm, by omega⟩, by omega, by rw [hlen]; exact ha.2, ?_⟩
  rw [hlen, want_eq_of_le (List.take_prefix _ _) (by omega)]

omit [DecidableEq α] in
/-- The header at the start of a text, with an impossible length. -/
theorem isBogus_take (hm : F.marker <+: bs) (hl : F.hdr ≤ bs.length) (ha : ¬ F.Admits bs) :
    F.IsBogus (bs.take F.hdr) := by
  have hmk := F.marker_lt
  have hlen : (bs.take F.hdr).length = F.hdr := by rw [List.length_take]; omega
  refine ⟨List.prefix_take_iff.2 ⟨hm, by omega⟩, hlen, ?_⟩
  rw [want_eq_of_le (List.take_prefix _ _) (by omega)]
  by_contra hno
  exact ha ⟨by omega, by omega⟩

/-- The scanner over a text that starts with the marker, if it is right about shorter texts. -/
theorem run_scan_marker (hm : F.marker <+: bs) (m : ℕ)
    (ih : ∀ t : List α, t.length < bs.length → (F.run (.hunt 0) t).2 = F.scan F.hdr t) :
    (F.run (.hunt m) bs).2 = F.scan F.hdr bs := by
  have hmk := F.marker_lt
  obtain ⟨u, hu⟩ := hm
  have hm : F.marker <+: bs := ⟨u, hu⟩
  -- a text that ends before its header or its frame does
  have hpart : (F.hdr ≤ bs.length → F.Admits bs ∧ bs.length < F.want bs) →
      (F.run (.hunt m) bs).2 = silent bs := by
    intro h
    rw [← hu] at h ⊢
    rw [run_append, run_marker]
    simp only
    rw [run_fill_part u F.marker h, silent_append]
  by_cases hl : bs.length < F.hdr
  · rw [scan_short hl]
    exact hpart fun h => by omega
  · by_cases ha : F.Admits bs
    · by_cases hw : bs.length < F.want bs
      · rw [scan_part hm (by omega) ha hw]
        exact hpart fun _ => ⟨ha, hw⟩
      · have hge := ha.1
        rw [scan_frame hm (by omega) ha (by omega)]
        conv_lhs => rw [← List.take_append_drop (F.want bs) bs]
        rw [run_append, run_frame (isFrame_take hm ha (by omega)) m]
        simp only
        rw [ih _ (by rw [List.length_drop]; omega)]
    · rw [scan_bogus (by omega) hm (by omega) ha]
      conv_lhs => rw [← List.take_append_drop F.hdr bs]
      rw [run_append, run_bogus (isBogus_take hm (by omega) ha) m]
      simp only
      rw [ih _ (by rw [List.length_drop]; omega)]

/-- **The scanner is `scan hdr`.** -/
theorem run_scan (bs : List α) : (F.run (.hunt 0) bs).2 = F.scan F.hdr bs := by
  induction hn : bs.length using Nat.strong_induction_on generalizing bs with
  | _ n ih =>
    by_cases hex : ∃ i, F.marker <+: bs.drop i
    · -- nothing up to the first marker, and then the text from there on
      have hbefore : ∀ i < Nat.find hex, ¬ F.marker <+: bs.drop i := fun i hi =>
        Nat.find_min hex hi
      obtain ⟨m, -, hrun⟩ := run_free (free_take hbefore)
      rw [scan_skip hbefore]
      conv_lhs => rw [← List.take_append_drop (Nat.find hex) bs]
      rw [run_append, hrun]
      simp only
      rw [run_scan_marker (Nat.find_spec hex) m]
      intro t ht
      rw [List.length_drop] at ht
      exact ih t.length (by omega) t rfl
    · have hnone : ∀ i < bs.length, ¬ F.marker <+: bs.drop i := fun i _ h => hex ⟨i, h⟩
      have hfree := free_take hnone
      rw [List.take_length] at hfree
      obtain ⟨m, -, hrun⟩ := run_free hfree
      rw [hrun, scan_skip hnone, List.take_length, List.drop_length, scan_nil, List.append_nil]

omit [DecidableEq α] in
theorem silent_emit {t f : List α} {j : ℕ} : (silent t)[j]? ≠ some (some f) := by
  intro h
  have hmem := List.eq_of_mem_replicate (List.mem_of_getElem? h)
  simp at hmem

omit [DecidableEq α] in
theorem outs_emit {t f : List α} {j : ℕ} (h : (outs t)[j]? = some (some f)) :
    f.length ≤ j + 1 := by
  unfold outs at h
  by_cases hj : j < t.length - 1
  · rw [List.getElem?_append_left (by simpa using hj)] at h
    exact absurd (List.eq_of_mem_replicate (List.mem_of_getElem? h)) (by simp)
  · rw [List.getElem?_append_right (by simpa using hj)] at h
    have hf : f = t := by simpa using List.mem_of_getElem? h
    rw [hf]
    omega

/-- A frame lies before the symbol at which it is emitted. -/
theorem scan_emit {j : ℕ} {f : List α} (h : (F.scan back bs)[j]? = some (some f)) :
    f.length ≤ j + 1 := by
  induction hn : bs.length using Nat.strong_induction_on generalizing bs j with
  | _ n ih =>
    cases bs with
    | nil =>
      rw [scan_nil] at h
      simp at h
    | cons b bs =>
      rw [List.length_cons] at hn
      -- behind a first piece, the rest of the text has emitted the frame
      have hrest : ∀ (o : List (Option (List α))) (k : ℕ), ¬ j < o.length →
          (o ++ F.scan back (bs.drop k))[j]? = some (some f) → f.length ≤ j + 1 := by
        intro o k hj ho
        rw [List.getElem?_append_right (Nat.not_lt.1 hj)] at ho
        have := ih (bs.drop k).length (by rw [List.length_drop]; omega) ho rfl
        omega
      by_cases hm : F.marker <+: b :: bs
      · rw [scan, if_pos hm] at h
        split_ifs at h with hl ha hw
        · exact absurd h silent_emit
        · exact absurd h silent_emit
        · by_cases hj : j < (outs ((b :: bs).take (F.want (b :: bs)))).length
          · rw [List.getElem?_append_left hj] at h
            exact outs_emit h
          · exact hrest _ _ hj h
        · by_cases hj : j < (silent ((b :: bs).take back)).length
          · rw [List.getElem?_append_left hj] at h
            exact absurd h silent_emit
          · exact hrest _ _ hj h
      · rw [scan_cons hm] at h
        cases j with
        | zero => simp at h
        | succ j =>
          have := ih bs.length (by omega) (by simpa using h) rfl
          omega

/-! ## Endless texts -/

/-- The `n` symbols of an endless text from position `i` on. -/
def window (x : ℕ → α) (i n : ℕ) : List α := (List.range n).map fun j => x (i + j)

section Window

variable {x : ℕ → α} {i j k n : ℕ}

omit [DecidableEq α]

@[simp] theorem window_length : (window x i n).length = n := by simp [window]

theorem window_add : window x i (k + n) = window x i k ++ window x (i + k) n := by
  unfold window
  rw [List.range_add, List.map_append, List.map_map]
  congr 1
  exact List.map_congr_left fun j _ => congrArg x (Nat.add_assoc i k j).symm

theorem take_window : (window x i (k + n)).take k = window x i k := by
  rw [window_add, List.take_left' window_length]

theorem window_drop : (window x i (k + n)).drop k = window x (i + k) n := by
  rw [window_add, List.drop_left' window_length]

variable (F)

/-- The marker starts at position `i`. -/
def MarkerAt (x : ℕ → α) (i : ℕ) : Prop := window x i F.marker.length = F.marker

/-- The length that a header at position `i` states. -/
def wantAt (x : ℕ → α) (i : ℕ) : ℕ := F.want (window x i F.hdr)

/-- A header at position `i` states a length that a frame can have. -/
def AdmitsAt (x : ℕ → α) (i : ℕ) : Prop := F.hdr ≤ F.wantAt x i ∧ F.wantAt x i ≤ F.max

/-- **A frame starts** at position `i`: a marker, and a length that a frame can have. -/
def StartAt (x : ℕ → α) (i : ℕ) : Prop := F.MarkerAt x i ∧ F.AdmitsAt x i

variable {F}

theorem marker_window : F.marker <+: window x i n ↔ F.marker.length ≤ n ∧ F.MarkerAt x i := by
  unfold MarkerAt
  constructor
  · intro h
    have hle := h.length_le
    rw [window_length] at hle
    obtain ⟨d, rfl⟩ := Nat.exists_eq_add_of_le hle
    refine ⟨hle, ?_⟩
    rw [List.prefix_iff_eq_take, take_window] at h
    exact h.symm
  · rintro ⟨hle, h⟩
    obtain ⟨d, rfl⟩ := Nat.exists_eq_add_of_le hle
    rw [window_add, h]
    exact List.prefix_append _ _

theorem want_window (h : F.hdr ≤ n) : F.want (window x i n) = F.wantAt x i := by
  obtain ⟨d, rfl⟩ := Nat.exists_eq_add_of_le h
  rw [F.want_take _ (by rw [window_length]; omega), take_window]
  rfl

theorem admits_window (h : F.hdr ≤ n) : F.Admits (window x i n) ↔ F.AdmitsAt x i := by
  unfold Admits AdmitsAt
  rw [want_window h]

/-- **Markers do not overlap**, since their symbols differ. -/
theorem markerAt_far (hi : F.MarkerAt x i) (hj : F.MarkerAt x j) (hij : i < j) :
    i + F.marker.length ≤ j := by
  by_contra hlt
  have hpos := F.marker_pos
  have hsym : ∀ p, F.MarkerAt x p → ∀ m (hm : m < F.marker.length), x (p + m) = F.marker[m] := by
    intro p hp m hm
    have hget : (window x p F.marker.length)[m]? = F.marker[m]? := congrArg (·[m]?) hp
    rw [List.getElem?_eq_getElem hm] at hget
    simpa [window, hm] using hget
  have h1 := hsym i hi (j - i) (by omega)
  have h2 := hsym j hj 0 hpos
  rw [Nat.add_zero] at h2
  rw [Nat.add_sub_cancel' hij.le, h2] at h1
  have heq := F.nodup.getElem_inj_iff.1 h1
  omega

end Window

/-! ## The scan of an endless text -/

section ScanWindow

variable {x : ℕ → α} {i k n : ℕ}

theorem scanW_short (h : n < F.hdr) :
    F.scan back (window x i n) = List.replicate n none := by
  rw [scan_short (by rw [window_length]; exact h), silent, window_length]

theorem scanW_skip (h : ∀ j, i ≤ j → j < i + k → ¬ F.MarkerAt x j) :
    F.scan back (window x i (k + n)) =
      List.replicate k none ++ F.scan back (window x (i + k) n) := by
  have hno : ∀ m < k, ¬ F.marker <+: (window x i (k + n)).drop m := by
    intro m hm
    have hsplit : k + n = m + (k - m + n) := by omega
    rw [hsplit, window_drop, marker_window]
    exact fun hmk => h (i + m) (by omega) (by omega) hmk.2
  rw [scan_skip hno, take_window, window_drop, silent, window_length]

theorem scanW_bogus (hback : 0 < back) (hm : F.MarkerAt x i) (hl : F.hdr ≤ back + n)
    (hb : ¬ F.AdmitsAt x i) : F.scan back (window x i (back + n)) =
      List.replicate back none ++ F.scan back (window x (i + back) n) := by
  have hmk := F.marker_lt
  rw [scan_bogus hback (marker_window.2 ⟨by omega, hm⟩) (by rw [window_length]; exact hl)
    (by rw [admits_window hl]; exact hb), take_window, window_drop, silent, window_length]

theorem scanW_frame (hs : F.StartAt x i) : F.scan back (window x i (F.wantAt x i + n)) =
    outs (window x i (F.wantAt x i)) ++ F.scan back (window x (i + F.wantAt x i) n) := by
  obtain ⟨hm, ha⟩ := hs
  have hmk := F.marker_lt
  have hl : F.hdr ≤ F.wantAt x i + n := le_trans ha.1 (Nat.le_add_right _ _)
  have hw := want_window (x := x) (i := i) hl
  rw [scan_frame (marker_window.2 ⟨by omega, hm⟩) (by rw [window_length]; exact hl)
    ((admits_window hl).2 ha) (by rw [hw, window_length]; omega), hw, take_window, window_drop]

theorem scanW_part (hs : F.StartAt x i) (h : n < F.wantAt x i) :
    F.scan back (window x i n) = List.replicate n none := by
  obtain ⟨hm, ha⟩ := hs
  have hmk := F.marker_lt
  by_cases hl : n < F.hdr
  · exact scanW_short hl
  · have hl : F.hdr ≤ n := by omega
    rw [scan_part (marker_window.2 ⟨by omega, hm⟩) (by rw [window_length]; exact hl)
      ((admits_window hl).2 ha) (by rw [want_window hl, window_length]; exact h), silent,
      window_length]

/-- **The scan that resumes right after a marker passes over everything that starts no
frame.** -/
theorem scan_pass (h : ∀ j, i ≤ j → j < i + k → ¬ F.StartAt x j) :
    F.scan F.marker.length (window x i (k + n)) =
      List.replicate k none ++ F.scan F.marker.length (window x (i + k) n) := by
  have hpos := F.marker_pos
  have hmk := F.marker_lt
  induction hk : k using Nat.strong_induction_on generalizing i k n with
  | _ _ ih =>
    subst hk
    cases k with
    | zero =>
      rw [Nat.zero_add]
      rfl
    | succ k =>
      by_cases hm : F.MarkerAt x i
      · have ha : ¬ F.AdmitsAt x i := fun ha => h i (by omega) (by omega) ⟨hm, ha⟩
        by_cases hl : k + 1 + n < F.hdr
        · rw [scanW_short hl, scanW_short (by omega), List.replicate_append_replicate]
        · by_cases hfit : F.marker.length ≤ k + 1
          · -- the marker lies before the position, so the scan goes on behind it
            obtain ⟨d, hd⟩ := Nat.exists_eq_add_of_le hfit
            rw [hd, Nat.add_assoc, scanW_bogus hpos hm (by omega) ha,
              ih d (by omega) (fun j h1 h2 => h j (by omega) (by omega)) rfl,
              List.replicate_add, List.append_assoc, Nat.add_assoc]
          · -- the position is inside the marker, where no other marker starts
            obtain ⟨d, hd⟩ := Nat.exists_eq_add_of_le (show k + 1 ≤ F.marker.length by omega)
            obtain ⟨r, hr⟩ := Nat.exists_eq_add_of_le (show d ≤ n by omega)
            have hno : ∀ j, i + (k + 1) ≤ j → j < i + (k + 1) + d → ¬ F.MarkerAt x j := by
              intro j h1 h2 hj
              have := markerAt_far hm hj (by omega)
              omega
            have hsum : k + 1 + n = F.marker.length + r := by omega
            have hpos' : i + (k + 1) + d = i + F.marker.length := by omega
            rw [hsum, scanW_bogus hpos hm (by omega) ha, hr, scanW_skip hno, hpos', hd,
              List.replicate_add, List.append_assoc]
      · have hno : ∀ j, i ≤ j → j < i + 1 → ¬ F.MarkerAt x j := by
          intro j h1 h2
          obtain rfl : j = i := by omega
          exact hm
        have hsum : k + 1 + n = 1 + (k + n) := by omega
        rw [hsum, scanW_skip hno, ih k (by omega) (fun j h1 h2 => h j (by omega) (by omega)) rfl,
          ← List.append_assoc, List.replicate_append_replicate, Nat.add_comm 1 k, Nat.add_assoc,
          Nat.add_comm 1 k]

end ScanWindow

/-! ## What is hidden -/

section Hidden

variable (F)

/-- The first marker from position `i` on starts at position `q`. -/
structure First (x : ℕ → α) (i q : ℕ) : Prop where
  le : i ≤ q
  marker : F.MarkerAt x q
  before : ∀ j, i ≤ j → j < q → ¬ F.MarkerAt x j

/-- **Where an endless text is cut**: at its start, after each frame, and after each header that
is dropped. -/
inductive Cuts (x : ℕ → α) : ℕ → Prop
  | start : Cuts x 0
  | frame {i q : ℕ} (hc : Cuts x i) (hq : F.First x i q) (ha : F.AdmitsAt x q) :
      Cuts x (q + F.wantAt x q)
  | dropped {i q : ℕ} (hc : Cuts x i) (hq : F.First x i q) (ha : ¬ F.AdmitsAt x q) :
      Cuts x (q + F.hdr)

/-- The header at position `q` is dropped. -/
def Dropped (x : ℕ → α) (q : ℕ) : Prop := ∃ i, F.Cuts x i ∧ F.First x i q ∧ ¬ F.AdmitsAt x q

/-- A frame starts among the symbols of the header at position `q`, behind its first one. -/
def Hides (x : ℕ → α) (q : ℕ) : Prop := ∃ s, q < s ∧ s < q + F.hdr ∧ F.StartAt x s

variable {F} {x : ℕ → α}

/-- Between a cut and the first marker after it nothing is emitted. -/
theorem First.scan {i q : ℕ} (h : F.First x i q) (n : ℕ) :
    F.scan back (window x i (q - i + n)) =
      List.replicate (q - i) none ++ F.scan back (window x q n) := by
  have hle := h.le
  have hq : i + (q - i) = q := by omega
  rw [scanW_skip fun j h1 h2 => h.before j h1 (by omega), hq]

/-- Where the scans agree on all that follows a cut, they agree on all that follows the first
marker after it. -/
theorem First.agree {i q : ℕ} (h : F.First x i q)
    (heq : ∀ n, F.scan F.hdr (window x i n) = F.scan F.marker.length (window x i n)) (n : ℕ) :
    F.scan F.hdr (window x q n) = F.scan F.marker.length (window x q n) := by
  have hn := heq (q - i + n)
  rw [h.scan, h.scan] at hn
  exact List.append_cancel_left hn

/-- A dropped header that hides nothing is passed over by both scans. -/
theorem pass_dropped {q : ℕ} (ha : ¬ F.AdmitsAt x q) (hno : ¬ F.Hides x q) (n : ℕ) :
    F.scan F.marker.length (window x q (F.hdr + n)) =
      List.replicate F.hdr none ++ F.scan F.marker.length (window x (q + F.hdr) n) := by
  apply scan_pass
  intro j h1 h2 hj
  rcases Nat.eq_or_lt_of_le h1 with rfl | hlt
  · exact ha hj.2
  · exact hno ⟨j, hlt, h2, hj⟩

/-- **What is hidden is missed**: where the scans agree on all that follows a header that is
dropped, it hides nothing. The frame hidden first would be emitted by one of them, and by the
other only if it had started behind the header. -/
theorem not_hides {q : ℕ} (hm : F.MarkerAt x q) (ha : ¬ F.AdmitsAt x q)
    (heq : ∀ n, F.scan F.hdr (window x q n) = F.scan F.marker.length (window x q n)) :
    ¬ F.Hides x q := by
  classical
  have hmk := F.marker_lt
  intro hex
  obtain ⟨s, ⟨h1, h2, hstart⟩, hmin⟩ : ∃ s, (q < s ∧ s < q + F.hdr ∧ F.StartAt x s) ∧
      ∀ j < s, ¬ (q < j ∧ j < q + F.hdr ∧ F.StartAt x j) :=
    ⟨Nat.find hex, Nat.find_spec hex, fun j hj => Nat.find_min hex hj⟩
  obtain ⟨d, rfl⟩ := Nat.exists_eq_add_of_lt h1
  set w := F.wantAt x (q + d + 1) with hw
  have hge : F.hdr ≤ w := hstart.2.1
  -- the scan that loses nothing emits the frame at its last symbol
  have hpass : ∀ j, q ≤ j → j < q + (d + 1) → ¬ F.StartAt x j := by
    intro j hj1 hj2 hj
    rcases Nat.eq_or_lt_of_le hj1 with rfl | hlt
    · exact ha hj.2
    · exact hmin j (by omega) ⟨hlt, by omega, hj⟩
  have hright : F.scan F.marker.length (window x q (d + 1 + w)) =
      List.replicate (d + 1) none ++ outs (window x (q + d + 1) w) := by
    have hframe : F.scan F.marker.length (window x (q + d + 1) w) =
        outs (window x (q + d + 1) w) ++ F.scan F.marker.length (window x (q + d + 1 + w) 0) :=
      scanW_frame (n := 0) hstart
    have hnil : window x (q + d + 1 + w) 0 = [] := rfl
    rw [hnil, scan_nil, List.append_nil] at hframe
    rw [scan_pass hpass, ← Nat.add_assoc, hframe]
  -- the other one has gone on behind the header
  obtain ⟨r, hr⟩ := Nat.exists_eq_add_of_le (show F.hdr ≤ d + 1 + w by omega)
  have hleft : F.scan F.hdr (window x q (d + 1 + w)) =
      List.replicate F.hdr none ++ F.scan F.hdr (window x (q + F.hdr) r) := by
    rw [hr, scanW_bogus (by omega) hm (by omega) ha]
  have hlast := congrArg (fun l => l[d + w]?) ((hleft.symm.trans (heq _)).trans hright)
  simp only [outs, window_length] at hlast
  rw [List.getElem?_append_right (by simp; omega), List.getElem?_append_right (by simp; omega),
    List.getElem?_append_right (by simp; omega)] at hlast
  simp only [List.length_replicate] at hlast
  have hidx : d + w - (d + 1) - (w - 1) = 0 := by omega
  rw [hidx] at hlast
  have hemit := scan_emit hlast
  rw [window_length] at hemit
  omega

/-- Scans that agree on the whole text agree on all that follows a cut. -/
theorem Cuts.agree {i : ℕ} (hc : F.Cuts x i)
    (heq : ∀ n, F.scan F.hdr (window x 0 n) = F.scan F.marker.length (window x 0 n)) :
    ∀ n, F.scan F.hdr (window x i n) = F.scan F.marker.length (window x i n) := by
  induction hc with
  | start => exact heq
  | @frame i q hc hq ha ih =>
    intro n
    have hn := hq.agree ih (F.wantAt x q + n)
    rw [scanW_frame ⟨hq.marker, ha⟩, scanW_frame ⟨hq.marker, ha⟩] at hn
    exact List.append_cancel_left hn
  | @dropped i q hc hq ha ih =>
    intro n
    have hmk := F.marker_lt
    have hno := not_hides hq.marker ha (hq.agree ih)
    have hn := hq.agree ih (F.hdr + n)
    rw [scanW_bogus (by omega) hq.marker (by omega) ha, pass_dropped ha hno] at hn
    exact List.append_cancel_left hn

omit [DecidableEq α] in
/-- A part of the text holds the start of a marker, or it does not. -/
theorem first_or_none (x : ℕ → α) (i n : ℕ) : (∃ q m, F.First x i q ∧ n = q - i + m) ∨
    ∀ j, i ≤ j → j < i + n → ¬ F.MarkerAt x j := by
  classical
  by_cases hex : ∃ q, i ≤ q ∧ q < i + n ∧ F.MarkerAt x q
  · left
    obtain ⟨q, ⟨h1, h2, hm⟩, hmin⟩ : ∃ q, (i ≤ q ∧ q < i + n ∧ F.MarkerAt x q) ∧
        ∀ j < q, ¬ (i ≤ j ∧ j < i + n ∧ F.MarkerAt x j) :=
      ⟨Nat.find hex, Nat.find_spec hex, fun j hj => Nat.find_min hex hj⟩
    exact ⟨q, i + n - q, ⟨h1, hm, fun j h3 h4 hj => hmin j h4 ⟨h3, by omega, hj⟩⟩, by omega⟩
  · right
    exact fun j h1 h2 hj => hex ⟨j, h1, h2, hj⟩

/-- The scans agree on all that follows a cut, if nothing is hidden. -/
theorem Cuts.scan_eq (hno : ∀ q, F.Dropped x q → ¬ F.Hides x q) (n : ℕ) :
    ∀ i, F.Cuts x i → F.scan F.hdr (window x i n) = F.scan F.marker.length (window x i n) := by
  have hmk := F.marker_lt
  induction n using Nat.strong_induction_on with
  | _ n ih =>
    intro i hc
    rcases first_or_none (F := F) x i n with ⟨q, m, hq, rfl⟩ | hnone
    · rw [hq.scan, hq.scan]
      congr 1
      by_cases ha : F.AdmitsAt x q
      · by_cases hw : m < F.wantAt x q
        · rw [scanW_part ⟨hq.marker, ha⟩ hw, scanW_part ⟨hq.marker, ha⟩ hw]
        · obtain ⟨r, rfl⟩ := Nat.exists_eq_add_of_le (Nat.not_lt.1 hw)
          have hge := ha.1
          rw [scanW_frame ⟨hq.marker, ha⟩, scanW_frame ⟨hq.marker, ha⟩,
            ih r (by omega) _ (.frame hc hq ha)]
      · by_cases hl : m < F.hdr
        · rw [scanW_short hl, scanW_short hl]
        · obtain ⟨r, rfl⟩ := Nat.exists_eq_add_of_le (Nat.not_lt.1 hl)
          rw [scanW_bogus (by omega) hq.marker (by omega) ha,
            pass_dropped ha (hno q ⟨i, hc, hq, ha⟩),
            ih r (by omega) _ (.dropped hc hq ha)]
    · have hall : ∀ b, F.scan b (window x i n) = List.replicate n none ++ F.scan b [] :=
        fun b => scanW_skip (n := 0) hnone
      rw [hall, hall, scan_nil, scan_nil]

/-- **The scanner loses nothing if and only if nothing is hidden.** On every part of an endless
text from its start it gives, at each symbol, what the scan gives that resumes right after the
marker of a header that it drops, exactly when none of the headers that it drops hides the start
of a frame. -/
theorem run_rescan_iff (x : ℕ → α) :
    (∀ n, (F.run (.hunt 0) (window x 0 n)).2 = F.scan F.marker.length (window x 0 n)) ↔
      ∀ q, F.Dropped x q → ¬ F.Hides x q := by
  simp only [run_scan]
  constructor
  · rintro heq q ⟨i, hc, hq, ha⟩
    exact not_hides hq.marker ha (hq.agree (hc.agree heq))
  · intro hno n
    exact Cuts.scan_eq hno n 0 .start

end Hidden

end Framing
