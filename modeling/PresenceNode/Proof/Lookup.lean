import PresenceNode.Lib.Chain
import PresenceNode.Proof.Record
import PresenceNode.Spec.Walk

/-!
# What `tlv_find` finds

* `tlvItems`, `tlvChain`: the TLVs of a frame, as a chain of items.
* `tlvFind_eq`: `tlvFind` is the first item of the type in the longest chain.
* `tlvFindLoop_answers`: so is the loop with its 32-bit offset, which never reads outside the
  frame.
* `tlvTargetsOut_eq`, `tlvPresenceOut_eq`: what the decoders write, and where.
* `tlv_find_reference`: all of it, for every frame that the reassembler hands on.
-/

namespace PresenceNode

open LittleEndian ItemFormat

/-- The TLVs: a type and a length of four bytes each, and the payload. -/
def tlvItems : ItemFormat UInt8 UInt32 where
  hdr := 8
  type h := .ofNat (dec (h.take 4))
  len h := dec ((h.drop 4).take 4)
  hdr_pos := Nat.succ_pos 7

/-- A TLV. -/
abbrev Tlv := Item UInt8 UInt32

/-- The TLVs of a frame: those that lie wholly inside it. -/
def tlvChain (frame : List UInt8) : List Tlv := tlvItems.chain (frame.drop tlvHdrLen)

@[simp] theorem tlvItems_hdr : tlvItems.hdr = 8 := rfl

theorem tlvItems_size (it : Tlv) : tlvItems.size it = 8 + it.payload.length := rfl

/-! ## Reading the header of a TLV -/

/-- The type at an offset. -/
theorem rdU32_type {bs : List UInt8} {off : ℕ} (h : off + 8 ≤ bs.length) :
    rdU32 bs off = some (tlvItems.type ((bs.drop off).take 8)) := by
  obtain ⟨v, hv, hval⟩ := rdU32_some bs off (by omega)
  have htype : tlvItems.type ((bs.drop off).take 8) = v := by
    show UInt32.ofNat (dec (((bs.drop off).take 8).take 4)) = v
    rw [List.take_take, Nat.min_eq_left (by omega), ← hval, UInt32.ofNat_toNat]
  rw [hv, htype]

/-- The length at an offset. -/
theorem rdU32_len {bs : List UInt8} {off : ℕ} (h : off + 8 ≤ bs.length) :
    ∃ ln, rdU32 bs (off + 4) = some ln ∧ ln.toNat = tlvItems.len ((bs.drop off).take 8) := by
  obtain ⟨v, hv, hval⟩ := rdU32_some bs (off + 4) (by omega)
  refine ⟨v, hv, ?_⟩
  show v.toNat = dec ((((bs.drop off).take 8).drop 4).take 4)
  rw [hval, List.drop_take, List.drop_drop, List.take_take, Nat.min_eq_left (by omega)]

/-- When the TLV at an offset lies inside the frame. -/
theorem whole_iff {bs : List UInt8} {off : ℕ} {ln : UInt32}
    (hln : ln.toNat = tlvItems.len ((bs.drop off).take 8)) :
    tlvItems.Whole (bs.drop off) ↔ 8 + ln.toNat ≤ bs.length - off := by
  unfold Whole
  rw [tlvItems_hdr, ← hln, List.length_drop]

theorem next_drop {bs : List UInt8} {off : ℕ} {ln : UInt32}
    (hln : ln.toNat = tlvItems.len ((bs.drop off).take 8)) :
    tlvItems.next (bs.drop off) = bs.drop (off + (8 + ln.toNat)) := by
  unfold next
  rw [tlvItems_hdr, ← hln, List.drop_drop]

theorem first_drop {bs : List UInt8} {off : ℕ} {ln : UInt32}
    (hln : ln.toNat = tlvItems.len ((bs.drop off).take 8)) :
    tlvItems.first (bs.drop off) =
      ⟨tlvItems.type ((bs.drop off).take 8), (bs.drop (off + 8)).take ln.toNat⟩ := by
  unfold first
  rw [tlvItems_hdr, ← hln, List.drop_drop]

theorem not_whole_short {bs : List UInt8} {off : ℕ} (h : bs.length < off + 8) :
    ¬ tlvItems.Whole (bs.drop off) := by
  unfold Whole
  rw [tlvItems_hdr, List.length_drop]
  omega

/-! ## The lookup -/

/-- The walk over the TLVs finds the first one of the type. -/
theorem tlvFindFrom_eq (frame : List UInt8) (type : UInt32) (off : ℕ) :
    tlvFindFrom frame frame.length type off =
      some ((lookup type (tlvItems.chain (frame.drop off))).map Item.payload) := by
  induction h : frame.length - off using Nat.strong_induction_on generalizing off with
  | _ n ih =>
    rw [tlvFindFrom]
    by_cases hfit : off + 8 ≤ frame.length
    · obtain ⟨ln, hln, hlen⟩ := rdU32_len hfit
      have hw := whole_iff hlen
      rw [dif_pos hfit, rdU32_type hfit, hln]
      simp only [Option.bind_eq_bind, Option.bind_some]
      by_cases hlie : ln.toNat > frame.length ∨ off + 8 + ln.toNat > frame.length
      · rw [if_pos hlie, chain_stop (by rw [hw]; omega)]
        rfl
      · rw [if_neg hlie, chain_whole (by rw [hw]; omega), first_drop hlen, next_drop hlen]
        by_cases htype : tlvItems.type ((frame.drop off).take 8) = type
        · rw [if_pos htype, lookup_cons_of_eq htype]
          rfl
        · rw [if_neg htype, lookup_cons_of_ne htype]
          exact ih _ (by omega) _ rfl
    · rw [dif_neg hfit, chain_stop (not_whole_short (by omega))]
      rfl

/-- The header of a whole frame states its length. -/
theorem rdU32_total {frame : List UInt8} (h : tlvFraming.IsFrame frame) :
    ∃ total, rdU32 frame 12 = some total ∧ total.toNat = frame.length := by
  have hlen : tlvHdrLen ≤ frame.length := h.ge
  obtain ⟨total, ht, htotal⟩ := rdU32_some frame 12
    (by simp only [tlvHdrLen] at hlen; omega)
  refine ⟨total, ht, ?_⟩
  rw [htotal]
  exact h.want

/-- **`tlv_find` finds the first TLV of the type**, among those that lie wholly inside. -/
theorem tlvFind_eq {frame : List UInt8} (h : tlvFraming.IsFrame frame) (type : UInt32) :
    tlvFind frame type = some ((lookup type (tlvChain frame)).map Item.payload) := by
  obtain ⟨total, ht, htotal⟩ := rdU32_total h
  unfold tlvFind
  rw [ht]
  simp only [Option.bind_eq_bind, Option.bind_some]
  rw [htotal]
  exact tlvFindFrom_eq frame type tlvHdrLen

/-! ## The lookup, with pointers -/

/-- **The reference lookup** in TLVs that start at offset `off`: a pointer to the payload of
the first one of the type and its length, or NULL and 0. -/
def Answers (type : UInt32) (off : ℕ) (items : List Tlv) : Option UInt32 × UInt32 → Prop
  | (some p, len) => ∃ before it after, items = before ++ it :: after ∧ it.type = type ∧
      (∀ x ∈ before, x.type ≠ type) ∧ p.toNat = off + tlvItems.sizes before + 8 ∧
      len.toNat = it.payload.length
  | (none, len) => (∀ x ∈ items, x.type ≠ type) ∧ len = 0

theorem answers_nil {type : UInt32} {off : ℕ} {r : Option UInt32 × UInt32} :
    Answers type off [] r ↔ r = (none, 0) := by
  obtain ⟨ptr, len⟩ := r
  cases ptr with
  | none => simp [Answers]
  | some p => simp [Answers]

/-- The first TLV is of the type: it is the answer. -/
theorem answers_cons_of_eq {type : UInt32} {off : ℕ} {it : Tlv} {items : List Tlv}
    (heq : it.type = type) {r : Option UInt32 × UInt32} : Answers type off (it :: items) r ↔
      ∃ p, r.1 = some p ∧ p.toNat = off + 8 ∧ r.2.toNat = it.payload.length := by
  obtain ⟨ptr, len⟩ := r
  constructor
  · cases ptr with
    | none => exact fun h => absurd heq (h.1 it List.mem_cons_self)
    | some p =>
      rintro ⟨before, found, after, hsplit, -, hbefore, hp, hlen⟩
      cases before with
      | nil =>
        obtain ⟨rfl, -⟩ := List.cons.inj hsplit
        exact ⟨p, rfl, hp, hlen⟩
      | cons x before =>
        obtain ⟨rfl, -⟩ := List.cons.inj hsplit
        exact absurd heq (hbefore it List.mem_cons_self)
  · rintro ⟨p, rfl, hp, hlen⟩
    exact ⟨[], it, items, rfl, heq, by simp, hp, hlen⟩

/-- The first TLV is of another type: the answer is further on. -/
theorem answers_cons_of_ne {type : UInt32} {off : ℕ} {it : Tlv} {items : List Tlv}
    (hne : it.type ≠ type) {r : Option UInt32 × UInt32} :
    Answers type off (it :: items) r ↔ Answers type (off + tlvItems.size it) items r := by
  obtain ⟨ptr, len⟩ := r
  cases ptr with
  | none => simp [Answers, hne]
  | some p =>
    constructor
    · rintro ⟨before, found, after, hsplit, htype, hbefore, hp, hlen⟩
      cases before with
      | nil =>
        obtain ⟨rfl, -⟩ := List.cons.inj hsplit
        exact absurd htype hne
      | cons x before =>
        obtain ⟨rfl, hrest⟩ := List.cons.inj hsplit
        refine ⟨before, found, after, hrest, htype,
          fun y hy => hbefore y (List.mem_cons_of_mem _ hy), ?_, hlen⟩
        rw [hp, sizes_cons]
        omega
    · rintro ⟨before, found, after, hsplit, htype, hbefore, hp, hlen⟩
      refine ⟨it :: before, found, after, by rw [hsplit]; rfl, htype, fun x hx => ?_, ?_, hlen⟩
      · rcases List.mem_cons.1 hx with rfl | hx
        · exact hne
        · exact hbefore x hx
      · rw [hp, sizes_cons]
        omega

theorem toNat_add_of_lt {a b : UInt32} (h : a.toNat + b.toNat < 2 ^ 32) :
    (a + b).toNat = a.toNat + b.toNat := by
  rw [UInt32.toNat_add]
  exact Nat.mod_eq_of_lt h

theorem rdAt_some {p : List UInt8} {off : UInt32} {i : ℕ} {v : UInt32}
    (h : rdU32 p (off.toNat + i) = some v) : rdAt p off i = .ok v := by
  unfold rdAt
  rw [h]

section Loop

variable {frame : List UInt8} {total : UInt32} {off : UInt32}

theorem rdAt_type (h : off.toNat + 8 ≤ frame.length) :
    rdAt frame off 0 = .ok (tlvItems.first (frame.drop off.toNat)).type :=
  rdAt_some (rdU32_type h)

/-- A round at a TLV that does not lie wholly inside the frame: NULL. -/
theorem tlvFindLoop_stop (htotal : total.toNat = frame.length) (hmax : frame.length ≤ tlvMaxFrame)
    (hoff : off.toNat ≤ frame.length) (hw : ¬ tlvItems.Whole (frame.drop off.toNat))
    (type : UInt32) (fuel : ℕ) : tlvFindLoop frame total type (fuel + 1) off = .ok (none, 0) := by
  simp only [tlvMaxFrame] at hmax
  have h8 : (off + 8).toNat = off.toNat + 8 := toNat_add_of_lt (by simp; omega)
  unfold tlvFindLoop
  by_cases hfit : off + 8 ≤ total
  · have hfit' : off.toNat + 8 ≤ frame.length := by
      rw [UInt32.le_iff_toNat_le, h8, htotal] at hfit
      exact hfit
    obtain ⟨ln, hln, hlen⟩ := rdU32_len hfit'
    rw [whole_iff hlen] at hw
    rw [if_pos hfit, rdAt_type hfit', rdAt_some hln]
    simp only [Except.bind, bind, pure, Except.pure]
    -- a length over the total may make the sum wrap, but then the sum is not looked at
    have hlie : ln > total ∨ off + 8 + ln > total := by
      by_cases hlong : ln > total
      · exact .inl hlong
      · right
        have hshort : ln.toNat ≤ frame.length := by
          rw [← htotal]
          exact UInt32.le_iff_toNat_le.1 (UInt32.not_lt.1 hlong)
        show total < off + 8 + ln
        rw [UInt32.lt_iff_toNat_lt, toNat_add_of_lt (by rw [h8]; omega), h8, htotal]
        omega
    rw [if_pos hlie]
  · rw [if_neg hfit]
    rfl

/-- A round at a TLV that lies wholly inside the frame: it is the answer, or the offset moves
on to the next one. -/
theorem tlvFindLoop_whole (htotal : total.toNat = frame.length)
    (hmax : frame.length ≤ tlvMaxFrame) (hoff : off.toNat ≤ frame.length)
    (hw : tlvItems.Whole (frame.drop off.toNat)) (type : UInt32) (fuel : ℕ) :
    ∃ ln : UInt32, ln.toNat = (tlvItems.first (frame.drop off.toNat)).payload.length ∧
      (off + 8).toNat = off.toNat + 8 ∧
      (off + (8 + ln)).toNat =
        off.toNat + tlvItems.size (tlvItems.first (frame.drop off.toNat)) ∧
      off.toNat + tlvItems.size (tlvItems.first (frame.drop off.toNat)) ≤ frame.length ∧
      tlvFindLoop frame total type (fuel + 1) off =
        if (tlvItems.first (frame.drop off.toNat)).type = type then .ok (some (off + 8), ln)
        else tlvFindLoop frame total type fuel (off + (8 + ln)) := by
  simp only [tlvMaxFrame] at hmax
  have h8 : (off + 8).toNat = off.toNat + 8 := toNat_add_of_lt (by simp; omega)
  have hfit : off.toNat + 8 ≤ frame.length := by
    by_contra hshort
    exact not_whole_short (by omega) hw
  obtain ⟨ln, hln, hlen⟩ := rdU32_len hfit
  have hroom := (whole_iff hlen).1 hw
  have hpayload : ln.toNat = (tlvItems.first (frame.drop off.toNat)).payload.length := by
    rw [first_drop hlen, List.length_take, List.length_drop]
    omega
  have hend : (off + 8 + ln).toNat = off.toNat + 8 + ln.toNat := by
    rw [toNat_add_of_lt (by rw [h8]; omega), h8]
  have hnext : (off + (8 + ln)).toNat = off.toNat + (8 + ln.toNat) := by
    rw [← UInt32.add_assoc, hend]
    omega
  refine ⟨ln, hpayload, h8, ?_, ?_, ?_⟩
  · rw [hnext, tlvItems_size, hpayload]
  · rw [tlvItems_size, ← hpayload]
    omega
  · have hguard : off + 8 ≤ total := by
      rw [UInt32.le_iff_toNat_le, h8, htotal]
      exact hfit
    have hlie : ¬ (ln > total ∨ off + 8 + ln > total) := by
      rintro (hlong | hover)
      · have hlt : total.toNat < ln.toNat := UInt32.lt_iff_toNat_lt.1 hlong
        omega
      · have hlt : total.toNat < (off + 8 + ln).toNat := UInt32.lt_iff_toNat_lt.1 hover
        omega
    rw [tlvFindLoop, if_pos hguard, rdAt_type hfit, rdAt_some hln]
    simp only [Except.bind, bind, pure, Except.pure]
    rw [if_neg hlie]

/-- **The loop of `tlv_find` answers**, with one round of fuel for each 8 bytes: its offset
never wraps, as it stays under a total of 2048. -/
theorem tlvFindLoop_answers (htotal : total.toNat = frame.length)
    (hmax : frame.length ≤ tlvMaxFrame) (type : UInt32) (fuel : ℕ) (off : UInt32)
    (hoff : off.toNat ≤ frame.length) (hfuel : (frame.length - off.toNat) / 8 < fuel) :
    ∃ r, tlvFindLoop frame total type fuel off = .ok r ∧
      Answers type off.toNat (tlvItems.chain (frame.drop off.toNat)) r := by
  induction fuel generalizing off with
  | zero => omega
  | succ fuel ih =>
    by_cases hw : tlvItems.Whole (frame.drop off.toNat)
    · obtain ⟨ln, hln, h8, hnext, hroom, hloop⟩ :=
        tlvFindLoop_whole htotal hmax hoff hw type fuel
      rw [hloop, chain_whole hw]
      by_cases htype : (tlvItems.first (frame.drop off.toNat)).type = type
      · rw [if_pos htype]
        exact ⟨_, rfl, (answers_cons_of_eq htype).2 ⟨_, rfl, h8, hln⟩⟩
      · rw [if_neg htype]
        have hsize := tlvItems_size (tlvItems.first (frame.drop off.toNat))
        obtain ⟨r, hr, hans⟩ := ih (off + (8 + ln)) (by omega) (by omega)
        rw [hnext, ← List.drop_drop, ← ItemFormat.next_eq hw] at hans
        exact ⟨r, hr, (answers_cons_of_ne htype).2 hans⟩
    · rw [tlvFindLoop_stop htotal hmax hoff hw type fuel, chain_stop hw]
      exact ⟨_, rfl, by simp, rfl⟩

end Loop

/-! ## What the decoders write -/

section Decoders

variable {payload : List UInt8} {len : UInt32}

/-- The word of a target at an offset of the payload. -/
theorem rdAt_drop (p : List UInt8) (off : UInt32) (i : ℕ) (h : off.toNat + i + 4 ≤ p.length) :
    ∃ v, rdAt p off i = .ok v ∧ rdU32 (p.drop off.toNat) i = some v := by
  obtain ⟨v, hv, -⟩ := rdU32_some p (off.toNat + i) h
  refine ⟨v, rdAt_some hv, ?_⟩
  unfold rdU32 at hv ⊢
  rw [List.drop_drop]
  exact hv

/-- One target is read as `targetAt` reads it. -/
theorem targetOut_eq (payload : List UInt8) (size off : UInt32) (h : off.toNat + 16 ≤ payload.length) :
    ∃ t, targetOut payload size off = .ok t ∧
      targetAt size.toNat (payload.drop off.toNat) = some t := by
  obtain ⟨tid, htid, htid'⟩ := rdAt_drop payload off 0 (by omega)
  obtain ⟨x, hx, hx'⟩ := rdAt_drop payload off 4 (by omega)
  obtain ⟨y, hy, hy'⟩ := rdAt_drop payload off 8 (by omega)
  obtain ⟨z, hz, hz'⟩ := rdAt_drop payload off 12 (by omega)
  have hd : size.toNat = target3dSize ↔ size = 112 := by
    rw [← UInt32.toNat_inj]
    rfl
  unfold targetOut targetAt
  rw [htid, hx, hy, hz, htid', hx', hy', hz']
  simp only [hd]
  by_cases h3 : size = 112
  · simp only [Except.bind, bind, pure, Except.pure, h3, if_true]
    exact ⟨_, rfl, rfl⟩
  · simp only [Except.bind, bind, pure, Except.pure, h3, if_false]
    exact ⟨_, rfl, rfl⟩

/-- **The loop of `tlv_targets`** writes the targets that `targetsOf` lists, each at its index,
from `n` on. -/
theorem tlvTargetsLoop_eq (hlen : len.toNat = payload.length)
    (hmax : payload.length ≤ tlvMaxFrame) {size : UInt32} (hsize : 16 ≤ size.toNat)
    (hsmall : size.toNat ≤ 112) (max fuel : ℕ) (off : UInt32) (n : ℕ)
    (hoff : off.toNat ≤ payload.length) (hfuel : (payload.length - off.toNat) / 16 < fuel) :
    ∃ ts, targetsOf size.toNat (max - n) (payload.drop off.toNat) = some ts ∧
      tlvTargetsLoop payload size len max fuel off n =
        .ok (n + ts.1.length, (List.range' n ts.1.length).zip ts.1) := by
  simp only [tlvMaxFrame] at hmax
  induction fuel generalizing off n with
  | zero => omega
  | succ fuel ih =>
    have hnext : (off + size).toNat = off.toNat + size.toNat := toNat_add_of_lt (by omega)
    have hguard : off + size ≤ len ↔ size.toNat ≤ (payload.drop off.toNat).length := by
      rw [UInt32.le_iff_toNat_le, hnext, hlen, List.length_drop]
      omega
    unfold tlvTargetsLoop
    by_cases hgo : off + size ≤ len ∧ n < max
    · obtain ⟨hfit, hroom⟩ := hgo
      have hin := hguard.1 hfit
      rw [List.length_drop] at hin
      obtain ⟨t, ht, ht'⟩ := targetOut_eq payload size off (by omega)
      obtain ⟨ts, hts, hloop⟩ := ih (off + size) (n + 1) (by omega) (by omega)
      rw [hnext] at hts
      have hleft : max - n = (max - (n + 1)) + 1 := by omega
      rw [if_pos ⟨hfit, hroom⟩, hleft, ht, hloop]
      unfold targetsOf
      rw [if_pos (hguard.1 hfit), ht', List.drop_drop, hts]
      refine ⟨_, rfl, ?_⟩
      simp only [Except.bind, bind, pure, Except.pure, List.length_cons, List.range'_succ,
        List.zip_cons_cons]
      congr 2
      omega
    · rw [if_neg hgo]
      refine ⟨⟨[], Nat.zero_le _⟩, ?_, rfl⟩
      by_cases hroom : n < max
      · have hleft : max - n = (max - (n + 1)) + 1 := by omega
        have hstop : ¬ size.toNat ≤ (payload.drop off.toNat).length := fun h =>
          hgo ⟨hguard.2 h, hroom⟩
        rw [hleft]
        unfold targetsOf
        rw [if_neg hstop]
      · rw [Nat.sub_eq_zero_of_le (by omega)]
        rfl

/-- **`tlv_targets` writes** what `tlvTargets` lists, each target at its index. -/
theorem tlvTargetsOut_eq (hlen : len.toNat = payload.length)
    (hmax : payload.length ≤ tlvMaxFrame) (max fuel : ℕ)
    (hfuel : payload.length / 16 < fuel) :
    ∃ ts, tlvTargets payload max = some ts ∧ tlvTargetsOut (some payload) len max fuel =
      .ok (ts.1.length, (List.range ts.1.length).zip ts.1) := by
  have hloop : ∀ size : UInt32, 16 ≤ size.toNat → size.toNat ≤ 112 →
      ∃ ts, targetsOf size.toNat max payload = some ts ∧
        tlvTargetsLoop payload size len max fuel 0 0 =
          .ok (ts.1.length, (List.range ts.1.length).zip ts.1) := by
    intro size h16 h112
    obtain ⟨ts, hts, hrun⟩ := tlvTargetsLoop_eq hlen hmax h16 h112 max fuel 0 0
      (Nat.zero_le _) (by simpa using hfuel)
    refine ⟨ts, by simpa using hts, ?_⟩
    rw [hrun, List.range_eq_range', Nat.zero_add]
  have hzero : len = 0 ↔ payload.length = 0 := by rw [← hlen]; exact UInt32.toNat_inj.symm
  have hdiv3 : len % 112 = 0 ↔ payload.length % target3dSize = 0 := by
    rw [← hlen, ← UInt32.toNat_inj, UInt32.toNat_mod]
    rfl
  have hdiv2 : len % 76 = 0 ↔ payload.length % target2dSize = 0 := by
    rw [← hlen, ← UInt32.toNat_inj, UInt32.toNat_mod]
    rfl
  unfold tlvTargetsOut tlvTargets
  simp only [hzero, hdiv3, hdiv2]
  by_cases h0 : payload.length = 0
  · rw [if_pos h0, if_pos h0]
    exact ⟨_, rfl, rfl⟩
  · rw [if_neg h0, if_neg h0]
    by_cases h3 : payload.length % target3dSize = 0
    · rw [if_pos h3, if_pos h3]
      exact hloop 112 (by decide) (by decide)
    · rw [if_neg h3, if_neg h3]
      by_cases h2 : payload.length % target2dSize = 0
      · rw [if_pos h2, if_pos h2]
        exact hloop 76 (by decide) (by decide)
      · rw [if_neg h2, if_neg h2]
        exact ⟨_, rfl, rfl⟩

/-- The state of a zone. -/
def zoneState (payload : List UInt8) (z : ℕ) : UInt8 :=
  if 1 + z / 4 < payload.length
  then (payload.getD (1 + z / 4) 0 >>> .ofNat (2 * (z % 4))) &&& 3 else 0

/-- **The loop of `tlv_presence`** writes the states of its zones, each at its index. -/
theorem tlvPresenceLoop_eq (hlen : len.toNat = payload.length) (left z : ℕ)
    (hz : z + left ≤ 256) : tlvPresenceLoop payload len left z =
      .ok ((List.range' z left).map fun z => (z, zoneState payload z)) := by
  induction left generalizing z with
  | zero => rfl
  | succ left ih =>
    have hidx : ((1 : UInt32) + .ofNat (z / 4)).toNat = 1 + z / 4 := by
      have hq : (UInt32.ofNat (z / 4)).toNat = z / 4 := UInt32.toNat_ofNat_of_lt' (by
        show z / 4 < 2 ^ 32
        omega)
      rw [toNat_add_of_lt (by rw [hq]; simp; omega), hq]
      rfl
    have hguard : (1 : UInt32) + .ofNat (z / 4) < len ↔ 1 + z / 4 < payload.length := by
      rw [UInt32.lt_iff_toNat_lt, hidx, hlen]
    have hstate : zoneOut payload len z = .ok (zoneState payload z) := by
      unfold zoneOut zoneState
      by_cases hin : 1 + z / 4 < payload.length
      · simp only
        rw [if_pos (hguard.2 hin), if_pos hin, hidx]
        unfold byteAt
        rw [List.getElem?_eq_getElem hin, List.getD_eq_getElem _ _ hin]
        rfl
      · simp only
        rw [if_neg (fun h => hin (hguard.1 h)), if_neg hin]
    unfold tlvPresenceLoop
    rw [hstate, ih (z + 1) (by omega)]
    rfl

/-- **`tlv_presence` writes** what `tlvPresence` lists, each state at its index. -/
theorem tlvPresenceOut_eq (hlen : len.toNat = payload.length) (max : ℕ) :
    tlvPresenceOut (some payload) len max = .ok ((tlvPresence payload max).length,
      (List.range (tlvPresence payload max).length).zip (tlvPresence payload max)) := by
  have hshort : len < 2 ↔ payload.length < 2 := by rw [UInt32.lt_iff_toNat_lt, hlen]; rfl
  unfold tlvPresenceOut tlvPresence
  by_cases h2 : payload.length < 2
  · rw [if_pos h2]
    simp only [hshort]
    rw [if_pos h2]
    rfl
  · have hb : payload[0]? = some (payload.getD 0 0) := by
      rw [List.getElem?_eq_getElem (by omega), List.getD_eq_getElem _ _ (by omega)]
    have hcount : min (payload.getD 0 0).toNat max ≤ 255 := by
      have := (payload.getD 0 0).toNat_lt
      omega
    rw [if_neg h2]
    simp only [hshort]
    rw [if_neg h2]
    unfold byteAt
    rw [hb]
    simp only [Except.bind, bind, pure, Except.pure]
    rw [tlvPresenceLoop_eq hlen _ _ (by omega)]
    simp only [List.length_map, List.length_range]
    rw [← List.range_eq_range', List.zip_map_right, List.zip_eq_zipWith,
      List.zipWith_self, List.map_map]
    rfl

end Decoders

/-! ## Lookup and decoding together -/

section Reference

variable {frame : List UInt8} {type : UInt32} {ptr : Option UInt32} {len : UInt32} {C : List Tlv}

/-- What lies behind the answer is the payload of the first TLV of the type. -/
theorem Answers.payloadAt (hC : C = tlvChain frame) (h : Answers type tlvHdrLen C (ptr, len)) :
    payloadAt frame ptr len = (lookup type C).map Item.payload ∧
      ∀ p, ptr = some p → p.toNat + len.toNat ≤ frame.length := by
  cases ptr with
  | none =>
    obtain ⟨hnone, -⟩ := h
    refine ⟨?_, fun p hp => by simp at hp⟩
    rw [lookup_none.2 hnone]
    rfl
  | some p =>
    obtain ⟨before, it, after, hsplit, htype, hbefore, hp, hlen⟩ := h
    have hfound : lookup type C = some it :=
      lookup_some.2 ⟨htype, before, after, hsplit, hbefore⟩
    have hchain : tlvItems.chain (frame.drop tlvHdrLen) = before ++ it :: after :=
      hC.symm.trans hsplit
    obtain ⟨hroom, hslice⟩ := chain_locate hchain
    rw [List.length_drop, tlvItems_size] at hroom
    rw [List.drop_drop, ← Nat.add_assoc, tlvItems_hdr, ← hp, ← hlen] at hslice
    refine ⟨?_, ?_⟩
    · rw [hfound]
      exact congrArg some hslice
    · intro q hq
      obtain rfl := Option.some.inj hq
      omega

/-- With one round of fuel for each 8 bytes after the header, `tlv_find` returns. -/
theorem tlvFindPtr_answers (h : tlvFraming.IsFrame frame) (type : UInt32) {fuel : ℕ}
    (hfuel : (frame.length - tlvHdrLen) / 8 < fuel) :
    ∃ ptr len, tlvFindPtr frame type fuel = .ok (ptr, len) ∧
      Answers type tlvHdrLen (tlvChain frame) (ptr, len) := by
  obtain ⟨total, ht, htotal⟩ := rdU32_total h
  have hrd : rdAt frame 12 0 = .ok total := rdAt_some ht
  obtain ⟨⟨ptr, len⟩, hrun, hans⟩ := tlvFindLoop_answers htotal h.le type fuel 40 h.ge hfuel
  refine ⟨ptr, len, ?_, hans⟩
  unfold tlvFindPtr
  rw [hrd]
  exact hrun

/-- No more zones are written than there is room for. -/
theorem tlvPresence_length_le (payload : List UInt8) (max : ℕ) :
    (tlvPresence payload max).length ≤ max := by
  unfold tlvPresence
  split_ifs
  · exact Nat.zero_le _
  · rw [List.length_map, List.length_range]
    exact min_le_right _ _

/-- **`tlv_find` is the reference lookup and is safe.** With one round for each 8 bytes after
the header it returns; it reads nothing outside the frame; among the longest chain of TLVs that
lie wholly inside, it returns the first one of the type, and NULL with a length of 0 if there
is none. Whatever `max` is, `tlv_targets` and `tlv_presence` read nothing outside what it
returned and write at indices below `max` only. -/
theorem tlv_find_reference (h : tlvFraming.IsFrame frame) (type : UInt32)
    (hC : tlvItems.Longest (frame.drop tlvHdrLen) C) (fuel : ℕ)
    (hfuel : (frame.length - tlvHdrLen) / 8 < fuel) :
    ∃ ptr len, tlvFindPtr frame type fuel = .ok (ptr, len) ∧
      Answers type tlvHdrLen C (ptr, len) ∧
      payloadAt frame ptr len = (lookup type C).map Item.payload ∧
      (∀ p, ptr = some p → p.toNat + len.toNat ≤ frame.length) ∧
      ∀ max,
        (∃ n writes, tlvTargetsOut (payloadAt frame ptr len) len max fuel = .ok (n, writes) ∧
          ∀ w ∈ writes, w.1 < max) ∧
        ∃ n writes, tlvPresenceOut (payloadAt frame ptr len) len max = .ok (n, writes) ∧
          ∀ w ∈ writes, w.1 < max := by
  have hmax : frame.length ≤ tlvMaxFrame := h.le
  have hmin : tlvHdrLen ≤ frame.length := h.ge
  obtain rfl : C = tlvChain frame := longest_iff.1 hC
  obtain ⟨ptr, len, hrun, hans⟩ := tlvFindPtr_answers h type hfuel
  obtain ⟨hpay, hin⟩ := Answers.payloadAt rfl hans
  refine ⟨ptr, len, hrun, hans, hpay, hin, fun max => ?_⟩
  cases ptr with
  | none => exact ⟨⟨0, [], rfl, by simp⟩, 0, [], rfl, by simp⟩
  | some p =>
    have hp := hin p rfl
    have hplen : len.toNat = ((frame.drop p.toNat).take len.toNat).length := by
      rw [List.length_take, List.length_drop]
      omega
    -- the payload comes after the header of the frame and that of its TLV
    have hafter : 48 ≤ p.toNat := by
      obtain ⟨before, it, after, -, -, -, hp', -⟩ := hans
      simp only [tlvHdrLen] at hp'
      omega
    simp only [tlvMaxFrame, tlvHdrLen] at hmax hfuel hmin
    obtain ⟨ts, hts, hout⟩ := tlvTargetsOut_eq hplen
      (by simp only [tlvMaxFrame]; omega) max fuel (by omega)
    refine ⟨⟨_, _, hout, fun w hw => ?_⟩, _, _, tlvPresenceOut_eq hplen max, fun w hw => ?_⟩
    · have hidx := List.mem_range.1 (List.of_mem_zip hw).1
      have hle := ts.2
      omega
    · have hidx := List.mem_range.1 (List.of_mem_zip hw).1
      have hle := tlvPresence_length_le ((frame.drop p.toNat).take len.toNat) max
      omega

end Reference

theorem presenceFrame_isFrame : tlvFraming.IsFrame presenceFrame :=
  ⟨by decide, by decide, by decide, by decide⟩

theorem presenceFrame_chain : tlvChain presenceFrame = [⟨tlvEnhancedPresence, [1, 1]⟩] := by
  unfold tlvChain
  rw [chain_whole (by decide), chain_stop (by decide)]
  decide

/-- The zones of a frame, found in two rounds. -/
theorem tlv_find_zones : ∃ ptr len,
    tlvFindPtr presenceFrame tlvEnhancedPresence 2 = .ok (ptr, len) ∧
      Answers tlvEnhancedPresence tlvHdrLen [⟨tlvEnhancedPresence, [1, 1]⟩] (ptr, len) ∧
      payloadAt presenceFrame ptr len = some [1, 1] := by
  have hC : tlvItems.Longest (presenceFrame.drop tlvHdrLen) [⟨tlvEnhancedPresence, [1, 1]⟩] :=
    longest_iff.2 presenceFrame_chain.symm
  obtain ⟨ptr, len, hrun, hans, hpay, -⟩ :=
    tlv_find_reference presenceFrame_isFrame tlvEnhancedPresence hC 2 (by decide)
  exact ⟨ptr, len, hrun, hans, hpay⟩

end PresenceNode
