import PresenceNode.Lib.Framing
import PresenceNode.Spec.Tlv
import Mathlib.Tactic.IntervalCases

/-!
# The reassembler is a marker-and-length scanner

* `tlvFraming`: the radar's framing, as an instance of the general one.
* `tlvPush_sim`: every push in step with the scanner is in bounds and does what the
  scanner does; `feed_sim`: so does every stream.
* `push_sound`: over any sequence of pushes and resets, every access is in bounds and
  a push that returns 1 leaves a whole frame, the last bytes pushed, in `buf[0..len)`.
-/

namespace PresenceNode

open LittleEndian

/-- `totalPacketLen`, the little-endian word at offset 12. -/
def totalPacketLen (f : List UInt8) : ℕ := dec ((f.drop 12).take 4)

/-- The radar's framing. -/
def tlvFraming : Framing UInt8 where
  marker := tlvMagic.toList
  hdr := tlvHdrLen
  max := tlvMaxFrame
  want := totalPacketLen
  nodup := by decide
  marker_ne := by decide
  marker_lt := by decide
  hdr_le := by decide
  want_take := by
    intro l hl
    unfold totalPacketLen
    rw [List.drop_take, List.take_take]
    rfl

/-- The reassembler `r` is in step with the scanner. -/
def Sim (r : Reasm) : Scan UInt8 → Prop
  | .hunt m => r.len = 0 ∧ r.matched = m ∧ m < tlvMagicLen
  | .fill acc => r.len = acc.length ∧ r.frame = acc ∧ tlvFraming.Ok (.fill acc) ∧ r.matched = 0 ∧
      r.want = if acc.length < tlvHdrLen then 0 else totalPacketLen acc

theorem sim_reset (r : Reasm) : Sim (tlvReset r) (.hunt 0) := ⟨rfl, rfl, by decide⟩

theorem Sim.ok {r : Reasm} {s : Scan UInt8} (h : Sim r s) : tlvFraming.Ok s := by
  cases s with
  | hunt m => exact h.2.2
  | fill acc => exact h.2.2.1

/-- A frame being filled has its magic and has room left in the buffer. -/
theorem fill_bounds {acc : List UInt8} (h : tlvFraming.Ok (.fill acc)) :
    tlvMagicLen ≤ acc.length ∧ acc.length < tlvMaxFrame := by
  have h8 : tlvMagicLen ≤ acc.length := h.1.length_le
  refine ⟨h8, ?_⟩
  by_cases hl : tlvFraming.hdr ≤ acc.length
  · have := h.2 hl
    have : tlvFraming.max = tlvMaxFrame := rfl
    omega
  · have : tlvFraming.hdr = tlvHdrLen := rfl
    simp only [tlvHdrLen, tlvMaxFrame] at *; omega

/-! ## The buffer -/

/-- Storing one more byte after the bytes held. -/
theorem frame_set {r : Reasm} (h : r.len < tlvMaxFrame) (b : UInt8) :
    ({ r with buf := r.buf.set r.len b, len := r.len + 1 } : Reasm).frame = r.frame ++ [b] := by
  have hlen : r.buf.toList.length = tlvMaxFrame := r.buf.length_toList
  unfold Reasm.frame
  rw [Vector.toList_set, List.take_add_one, List.getElem?_set_self (by omega),
    List.take_set_of_le (le_refl _)]
  rfl

/-- Reading `totalPacketLen` out of the buffer. -/
theorem rd_want {r : Reasm} (h : 16 ≤ r.len) :
    (le4 r.buf[12] r.buf[13] r.buf[14] r.buf[15]).toNat = totalPacketLen r.frame := by
  have hlen : r.buf.toList.length = tlvMaxFrame := r.buf.length_toList
  have hw : (r.frame.drop 12).take 4 = [r.buf[12], r.buf[13], r.buf[14], r.buf[15]] := by
    unfold Reasm.frame
    rw [List.drop_take, List.take_take, Nat.min_eq_left (by omega)]
    apply List.ext_getElem
    · simp [tlvMaxFrame]
    · intro i h1 h2
      have hi : i < 4 := by simpa using h2
      interval_cases i <;> simp
  rw [dec_le4, totalPacketLen, hw]

/-- Copying the magic into the buffer in bulk. -/
theorem frame_magic (r : Reasm) :
    (⟨tlvMagic ++ r.buf.drop tlvMagicLen, tlvMagicLen, 0, 0⟩ : Reasm).frame = tlvFraming.marker := by
  unfold Reasm.frame
  rw [Vector.toList_append]
  exact List.take_left' rfl

/-! ## One push -/

theorem next_eq {m : ℕ} (hm : m < tlvMagicLen) (b : UInt8) :
    tlvFraming.next m b = if b = tlvMagic[m] then m + 1 else restart b := by
  have hget : ∀ i (hi : i < tlvMagicLen), tlvFraming.marker[i]? = some tlvMagic[i] := by
    intro i hi
    rw [List.getElem?_eq_getElem (by simpa [tlvFraming] using hi)]
    rfl
  unfold Framing.next restart
  rw [hget m hm, hget 0 (by decide)]
  simp only [Option.some.injEq, eq_comm]

/-- A push while hunting. -/
theorem tlvPush_hunt {r : Reasm} {m : ℕ} (h : Sim r (.hunt m)) (b : UInt8) :
    ∃ r', tlvPush r b = some (r', false) ∧ (tlvFraming.step (.hunt m) b).2 = none ∧
      Sim r' (tlvFraming.step (.hunt m) b).1 := by
  obtain ⟨hlen, hm, hlt⟩ := h
  have hmk : tlvFraming.marker.length = tlvMagicLen := rfl
  unfold tlvPush tlvHunt
  rw [if_pos hlen, hm, Vector.getElem?_eq_getElem hlt]
  simp only [Framing.step, next_eq hlt, hmk]
  by_cases hb : b = tlvMagic[m]
  · rw [if_pos hb, if_pos hb]
    by_cases h8 : m + 1 = tlvMagicLen
    · rw [if_pos h8, if_pos h8]
      refine ⟨_, rfl, rfl, rfl, frame_magic r, ⟨List.prefix_rfl, ?_⟩, rfl, rfl⟩
      intro h; exact absurd h (by decide)
    · rw [if_neg h8, if_neg h8]
      exact ⟨_, rfl, rfl, hlen, rfl, by omega⟩
  · rw [if_neg hb, if_neg hb]
    -- a restarted match is never a whole marker
    have hr : restart b ≤ 1 := by unfold restart; split <;> omega
    rw [if_neg (by simp only [tlvMagicLen]; omega)]
    exact ⟨_, rfl, rfl, hlen, rfl, by simp only [tlvMagicLen]; omega⟩

/-- The end of a push, with `want` known. -/
theorem tlvComplete_sim {r : Reasm} {acc : List UInt8} (hp : tlvFraming.marker <+: acc)
    (hlen : r.len = acc.length) (hf : r.frame = acc) (hm : r.matched = 0)
    (hh : tlvHdrLen ≤ acc.length) (hw : r.want = totalPacketLen acc)
    (hge : tlvHdrLen ≤ totalPacketLen acc) (hle : totalPacketLen acc ≤ tlvMaxFrame)
    (hroom : acc.length ≤ totalPacketLen acc) :
    (acc.length < totalPacketLen acc ∧ tlvComplete r = (r, false) ∧ Sim r (.fill acc)) ∨
    (totalPacketLen acc = acc.length ∧ ∃ r', tlvComplete r = (r', true) ∧ r'.frame = acc ∧
      r'.len = acc.length) := by
  unfold tlvComplete
  rw [hlen, hw]
  rcases Nat.lt_or_ge acc.length (totalPacketLen acc) with h | h
  · left
    rw [if_pos h]
    exact ⟨h, rfl, hlen, hf, ⟨hp, fun _ => ⟨hge, hle, h⟩⟩, hm, by rw [if_neg (by omega), hw]⟩
  · right
    have he : totalPacketLen acc = acc.length := by omega
    rw [if_neg (by omega)]
    refine ⟨he, _, rfl, ?_, he⟩
    show r.buf.toList.take (totalPacketLen acc) = acc
    rw [he, ← hlen]
    exact hf

/-- What the scanner does with a symbol while it fills a frame. -/
theorem scan_fill (acc : List UInt8) (b : UInt8) : tlvFraming.step (.fill acc) b =
    if (acc ++ [b]).length < tlvHdrLen then (.fill (acc ++ [b]), none)
    else if totalPacketLen (acc ++ [b]) < tlvHdrLen ∨
      tlvMaxFrame < totalPacketLen (acc ++ [b]) then (.hunt 0, none)
    else if (acc ++ [b]).length < totalPacketLen (acc ++ [b]) then (.fill (acc ++ [b]), none)
    else (.hunt 0, some (acc ++ [b])) := rfl

/-- The end of a push does what the scanner does, once the header is in and the length is
admissible. -/
theorem tlvComplete_step {r : Reasm} {acc : List UInt8} {b : UInt8}
    (hp : tlvFraming.marker <+: acc ++ [b]) (hlen : r.len = (acc ++ [b]).length)
    (hf : r.frame = acc ++ [b]) (hm : r.matched = 0) (hh : tlvHdrLen ≤ (acc ++ [b]).length)
    (hw : r.want = totalPacketLen (acc ++ [b])) (hge : tlvHdrLen ≤ totalPacketLen (acc ++ [b]))
    (hle : totalPacketLen (acc ++ [b]) ≤ tlvMaxFrame)
    (hroom : (acc ++ [b]).length ≤ totalPacketLen (acc ++ [b])) :
    (∃ r', some (tlvComplete r) = some (r', false) ∧ (tlvFraming.step (.fill acc) b).2 = none ∧
      Sim r' (tlvFraming.step (.fill acc) b).1) ∨
    (∃ r' f, some (tlvComplete r) = some (r', true) ∧
      tlvFraming.step (.fill acc) b = (.hunt 0, some f) ∧ r'.frame = f ∧ r'.len = f.length) := by
  rw [scan_fill, if_neg (by omega), if_neg (by omega)]
  rcases tlvComplete_sim hp hlen hf hm hh hw hge hle hroom with ⟨hlt, hc, hs⟩ | ⟨he, r', hc, hf', hl'⟩
  · left
    rw [if_pos hlt, hc]
    exact ⟨r, rfl, rfl, hs⟩
  · right
    rw [if_neg (by omega), hc]
    exact ⟨r', _, rfl, rfl, hf', hl'⟩

/-- **A push in step with the scanner is in bounds and does what the scanner does.** -/
theorem tlvPush_sim {r : Reasm} {s : Scan UInt8} (h : Sim r s) (b : UInt8) :
    (∃ r', tlvPush r b = some (r', false) ∧ (tlvFraming.step s b).2 = none ∧
      Sim r' (tlvFraming.step s b).1) ∨
    (∃ r' f, tlvPush r b = some (r', true) ∧ tlvFraming.step s b = (.hunt 0, some f) ∧
      r'.frame = f ∧ r'.len = f.length) := by
  cases s with
  | hunt m => exact Or.inl (tlvPush_hunt h b)
  | fill acc =>
    obtain ⟨hlen, hf, hok, hm, hw⟩ := h
    obtain ⟨h8, hmax⟩ := fill_bounds hok
    have hroom : r.len < tlvMaxFrame := by omega
    have hframe := frame_set hroom b
    rw [hf] at hframe
    have hacc : (acc ++ [b]).length = acc.length + 1 := by simp
    have hp : tlvFraming.marker <+: acc ++ [b] := hok.1.trans (List.prefix_append _ _)
    have hne : ¬ r.len = 0 := by simp only [tlvMagicLen] at h8; omega
    unfold tlvPush
    rw [if_neg hne, dif_pos hroom]
    set r1 : Reasm := { r with buf := r.buf.set r.len b, len := r.len + 1 } with hr1
    have hlen1 : r1.len = (acc ++ [b]).length := by rw [hacc, ← hlen]
    have hdr : tlvFraming.hdr = tlvHdrLen := rfl
    unfold tlvStored
    by_cases hin : acc.length < tlvHdrLen
    · -- the header is not in yet, so `want` is still to be read
      have hw0 : r1.want = 0 := by show r.want = 0; rw [hw, if_pos hin]
      rw [if_pos hw0]
      by_cases hl : r1.len < tlvHdrLen
      · left
        rw [if_pos hl, scan_fill, if_pos (by omega)]
        exact ⟨r1, rfl, rfl, hlen1, hframe, ⟨hp, fun h => absurd h (by omega)⟩, hm, by
          rw [hw0, if_pos (by omega)]⟩
      · rw [if_neg hl]
        have hrd := rd_want (r := r1) (le_trans (by decide) (not_lt.1 hl))
        rw [hframe] at hrd
        simp only [hrd]
        by_cases hb : totalPacketLen (acc ++ [b]) < tlvHdrLen ∨
            tlvMaxFrame < totalPacketLen (acc ++ [b])
        · left
          rw [if_pos hb, scan_fill, if_neg (by omega), if_pos hb]
          exact ⟨_, rfl, rfl, sim_reset _⟩
        · rw [if_neg hb]
          exact tlvComplete_step hp hlen1 hframe hm (by omega) rfl (by omega) (by omega) (by omega)
    · -- the header is in, so `want` was read at an earlier push
      obtain ⟨w1, w2, w3⟩ := hok.2 (by omega)
      have hsame : totalPacketLen acc = totalPacketLen (acc ++ [b]) :=
        Framing.want_eq_of_le (F := tlvFraming) (List.prefix_append acc [b]) (by omega)
      have hwant : tlvFraming.want acc = totalPacketLen acc := rfl
      have hF : tlvFraming.max = tlvMaxFrame := rfl
      have hw1 : r1.want = totalPacketLen (acc ++ [b]) := by
        show r.want = _
        rw [hw, if_neg hin, hsame]
      rw [if_neg (by rw [hw1]; omega)]
      exact tlvComplete_step hp hlen1 hframe hm (by omega) hw1 (by omega) (by omega) (by omega)

/-! ## Streams -/

/-- **A byte fed in step with the scanner** is in bounds and does what the scanner does. -/
theorem feedByte_sim {r : Reasm} {s : Scan UInt8} (h : Sim r s) (b : UInt8) :
    ∃ r', feedByte r b = some (r', (tlvFraming.step s b).2) ∧ Sim r' (tlvFraming.step s b).1 := by
  unfold feedByte
  rcases tlvPush_sim h b with ⟨r', hp, ho, hs⟩ | ⟨r', f, hp, hstep, hf, -⟩
  · exact ⟨r', by rw [hp, ho], hs⟩
  · exact ⟨tlvReset r', by rw [hp, hstep, ← hf], by rw [hstep]; exact sim_reset r'⟩

/-- **A stream fed in step with the scanner** gives the scanner's outputs. -/
theorem feed_sim : ∀ (bs : List UInt8) {r : Reasm} {s : Scan UInt8}, Sim r s →
    ∃ r', feed r bs = some (r', (tlvFraming.run s bs).2) ∧ Sim r' (tlvFraming.run s bs).1 := by
  intro bs
  induction bs with
  | nil => intro r s h; exact ⟨r, rfl, h⟩
  | cons b bs ih =>
    intro r s h
    obtain ⟨r1, h1, hs1⟩ := feedByte_sim h b
    obtain ⟨r2, h2, hs2⟩ := ih hs1
    refine ⟨r2, ?_, hs2⟩
    unfold feed
    rw [h1]
    simp only [bind, Option.bind, h2, pure, Framing.run_cons]

/-- Any stream from a reset, with the scanner it follows. -/
theorem feed_reset (r : Reasm) (bs : List UInt8) :
    ∃ r', feed (tlvReset r) bs = some (r', (tlvFraming.run (.hunt 0) bs).2) ∧
      Sim r' (tlvFraming.run (.hunt 0) bs).1 := feed_sim bs (sim_reset r)

/-! ## Any sequence of calls -/

/-- Any sequence of `tlv_push` and `tlv_reset` calls in which a reset follows every push
that returned 1: the bytes pushed since the last reset, the state, and what the last
push returned. -/
inductive Calls : List UInt8 → Reasm → Bool → Prop
  | reset (r : Reasm) : Calls [] (tlvReset r) false
  | push {h : List UInt8} {r r' : Reasm} {ret : Bool} (b : UInt8) (hc : Calls h r false)
      (hp : tlvPush r b = some (r', ret)) : Calls (h ++ [b]) r' ret

/-- Between pushes the reassembler is in step with the scanner, which tracks the bytes. -/
theorem calls_sim {h : List UInt8} {r : Reasm} {ret : Bool} (hc : Calls h r ret) :
    (ret = false → ∃ s, Sim r s ∧ tlvFraming.Tracks h s) ∧
      (ret = true → tlvFraming.IsFrame r.frame ∧ r.frame <:+ h ∧ r.len = r.frame.length) := by
  induction hc with
  | reset r => exact ⟨fun _ => ⟨.hunt 0, sim_reset r, by simp [Framing.Tracks]⟩, fun h => by simp at h⟩
  | push b hc hp ih =>
    obtain ⟨s, hs, ht⟩ := ih.1 rfl
    obtain ⟨ht', hemit⟩ := Framing.step_tracks hs.ok ht b
    rcases tlvPush_sim hs b with ⟨r', hp', ho, hs'⟩ | ⟨r', f, hp', hstep, hf, hl⟩
    · rw [hp'] at hp
      simp only [Option.some.injEq, Prod.mk.injEq] at hp
      obtain ⟨rfl, rfl⟩ := hp
      exact ⟨fun _ => ⟨_, hs', ht'⟩, fun h => by simp at h⟩
    · rw [hp'] at hp
      simp only [Option.some.injEq, Prod.mk.injEq] at hp
      obtain ⟨rfl, rfl⟩ := hp
      obtain ⟨hfr, hsuf, -⟩ := hemit f (by rw [hstep])
      refine ⟨fun h => by simp at h, fun _ => ?_⟩
      rw [hf]
      exact ⟨hfr, hsuf, hl⟩

/-- A stream over which the scanner emits nothing is a sequence of calls. -/
theorem calls_of_silent (r₀ : Reasm) (bs : List UInt8)
    (h : (tlvFraming.run (.hunt 0) bs).2.reduceOption = []) :
    ∃ r, Calls bs r false ∧ Sim r (tlvFraming.run (.hunt 0) bs).1 := by
  induction bs using List.reverseRecOn with
  | nil => exact ⟨_, Calls.reset r₀, sim_reset r₀⟩
  | append_singleton bs b ih =>
    rw [Framing.run_append] at h ⊢
    simp only [Framing.run_cons, Framing.run_nil, List.reduceOption_append,
      List.append_eq_nil_iff] at h ⊢
    obtain ⟨r, hc, hs⟩ := ih h.1
    rcases tlvPush_sim hs b with ⟨r', hp, -, hs'⟩ | ⟨r', f, hp, hstep, -, -⟩
    · exact ⟨r', Calls.push b hc hp, hs'⟩
    · rw [hstep] at h; simp at h

end PresenceNode
