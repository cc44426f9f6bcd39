import PresenceNode.Proof.Lookup

/-!
# What the listing of the types reads

The loops at the end of `on_frame` add up lengths that nothing has checked.

* `visits_whole`: a round at a TLV that lies inside the frame.
* `inside_iff`: the rounds stay inside the frame and advance, unless a length makes the
  32-bit offset wrap past the guard (`Wraps`).
* `listTypes_inside_iff`: both loops, for every frame; `listTypes_stuck`: a frame over which
  they do not advance.
* `agrees_iff`: the walk and `tlv_find` agree on a type, unless the padding reads as a TLV of
  it; `tlvFind_padding`: a frame in which it does.
-/

namespace PresenceNode

open LittleEndian ItemFormat

variable {frame : List UInt8} (junk : ℕ → UInt8) {total : UInt32} {off : UInt32}

/-! ## The header -/

/-- The header of a whole frame can be read, and states its length. -/
theorem tlvHeaderGet_whole (h : tlvFraming.IsFrame frame) :
    ∃ hdr, tlvHeaderGet frame = some hdr ∧ hdr.totalLen.toNat = frame.length := by
  have hlen : 40 ≤ frame.length := h.ge
  obtain ⟨total, ht, htotal⟩ := rdU32_total h
  obtain ⟨version, hv, -⟩ := rdU32_some frame 8 (by omega)
  obtain ⟨platform, hp, -⟩ := rdU32_some frame 16 (by omega)
  obtain ⟨frameNo, hf, -⟩ := rdU32_some frame 20 (by omega)
  obtain ⟨cpuCycles, hc, -⟩ := rdU32_some frame 24 (by omega)
  obtain ⟨numDetected, hd, -⟩ := rdU32_some frame 28 (by omega)
  obtain ⟨numTlvs, hn, -⟩ := rdU32_some frame 32 (by omega)
  obtain ⟨subFrame, hs, -⟩ := rdU32_some frame 36 (by omega)
  refine ⟨⟨version, total, platform, frameNo, cpuCycles, numDetected, numTlvs, subFrame⟩, ?_,
    htotal⟩
  unfold tlvHeaderGet
  rw [hv, ht, hp, hf, hc, hd, hn, hs]
  rfl

/-! ## One round -/

/-- Inside the frame, the bytes copied are the bytes of the frame. -/
theorem memU32_eq {i : ℕ} (h : i + 4 ≤ frame.length) :
    rdU32 frame i = some (memU32 frame junk i) := by
  have hat : ∀ k (hk : k < frame.length), memAt frame junk k = frame[k] := fun k hk =>
    List.getD_eq_getElem _ _ hk
  have hdrop : frame.drop i = frame[i] :: frame[i + 1] :: frame[i + 2] :: frame[i + 3] ::
      frame.drop (i + 4) := by
    rw [List.drop_eq_getElem_cons (by omega), List.drop_eq_getElem_cons (by omega),
      List.drop_eq_getElem_cons (by omega), List.drop_eq_getElem_cons (by omega)]
  unfold rdU32 memU32
  rw [hdrop, hat i (by omega), hat (i + 1) (by omega), hat (i + 2) (by omega),
    hat (i + 3) (by omega)]

/-- The guard of a round. -/
theorem guard_iff (htotal : total.toNat = frame.length) (hmax : frame.length ≤ tlvMaxFrame)
    (hoff : off.toNat ≤ frame.length) : off + 8 ≤ total ↔ off.toNat + 8 ≤ frame.length := by
  simp only [tlvMaxFrame] at hmax
  rw [UInt32.le_iff_toNat_le, toNat_add_of_lt (by simp; omega), htotal]
  rfl

/-- **A round** at a header that lies inside the frame reads it, and moves on by the length it
states, in 32 bits. -/
theorem visits_step (htotal : total.toNat = frame.length) (hmax : frame.length ≤ tlvMaxFrame)
    (hfit : off.toNat + 8 ≤ frame.length) (left : ℕ) :
    ∃ l : UInt32, l.toNat = tlvItems.len ((frame.drop off.toNat).take 8) ∧
      visits frame junk total (left + 1) off =
        ⟨off, (tlvItems.first (frame.drop off.toNat)).type, l⟩ ::
          visits frame junk total left (off + (8 + l)) := by
  obtain ⟨l, hl, hlen⟩ := rdU32_len hfit
  have ht : some (tlvItems.type ((frame.drop off.toNat).take 8)) =
      some (memU32 frame junk off.toNat) := by
    rw [← rdU32_type hfit]
    exact memU32_eq junk (by omega)
  have hl' : some l = some (memU32 frame junk (off.toNat + 4)) := by
    rw [← hl]
    exact memU32_eq junk (by omega)
  refine ⟨l, hlen, ?_⟩
  rw [visits, if_pos ((guard_iff htotal hmax (by omega)).2 hfit), ← Option.some.inj ht,
    ← Option.some.inj hl']
  rfl

/-- A round at a TLV that lies wholly inside the frame moves on to the next one. -/
theorem visits_whole (htotal : total.toNat = frame.length) (hmax : frame.length ≤ tlvMaxFrame)
    (hw : tlvItems.Whole (frame.drop off.toNat)) (left : ℕ) :
    ∃ l : UInt32, l.toNat = (tlvItems.first (frame.drop off.toNat)).payload.length ∧
      (off + (8 + l)).toNat =
        off.toNat + tlvItems.size (tlvItems.first (frame.drop off.toNat)) ∧
      off.toNat + tlvItems.size (tlvItems.first (frame.drop off.toNat)) ≤ frame.length ∧
      visits frame junk total (left + 1) off =
        ⟨off, (tlvItems.first (frame.drop off.toNat)).type, l⟩ ::
          visits frame junk total left (off + (8 + l)) := by
  have hfit : off.toNat + 8 ≤ frame.length := by
    by_contra hshort
    exact not_whole_short (by omega) hw
  obtain ⟨l, hlen, hvisits⟩ := visits_step junk htotal hmax hfit left
  have hroom := (whole_iff hlen).1 hw
  have hsize : tlvItems.size (tlvItems.first (frame.drop off.toNat)) = 8 + l.toNat := by
    rw [size_first hw, hlen]
    rfl
  simp only [tlvMaxFrame] at hmax
  have h8 : ((8 : UInt32) + l).toNat = 8 + l.toNat := toNat_add_of_lt (by simp; omega)
  refine ⟨l, ?_, ?_, by omega, hvisits⟩
  · rw [tlvItems_size] at hsize
    omega
  · rw [toNat_add_of_lt (by rw [h8]; omega), h8, hsize]

/-! ## Inside and advancing -/

/-- **The rounds stay inside the frame and advance**: both words of a round lie between `lo`
and the end, and each round starts at least a header after the one before it. -/
structure Inside (frame : List UInt8) (lo : ℕ) (rounds : List Visit) : Prop where
  reads : ∀ v ∈ rounds, lo ≤ v.off.toNat ∧ v.off.toNat + 8 ≤ frame.length
  advance : rounds.Pairwise fun v w => v.off.toNat + 8 ≤ w.off.toNat

theorem inside_nil (lo : ℕ) : Inside frame lo [] := ⟨by simp, .nil⟩

theorem inside_cons {lo : ℕ} {v : Visit} {rounds : List Visit} :
    Inside frame lo (v :: rounds) ↔ (lo ≤ v.off.toNat ∧ v.off.toNat + 8 ≤ frame.length) ∧
      Inside frame (v.off.toNat + 8) rounds := by
  constructor
  · rintro ⟨hreads, hadv⟩
    obtain ⟨hv, hrest⟩ := List.pairwise_cons.1 hadv
    refine ⟨hreads v List.mem_cons_self, ⟨fun w hw => ⟨hv w hw, ?_⟩, hrest⟩⟩
    exact (hreads w (List.mem_cons_of_mem _ hw)).2
  · rintro ⟨hv, hreads, hadv⟩
    refine ⟨fun w hw => ?_, List.pairwise_cons.2 ⟨fun w hw => (hreads w hw).1, hadv⟩⟩
    rcases List.mem_cons.1 hw with rfl | hw
    · exact hv
    · have := hreads w hw
      omega

/-- Rounds that advance are at most one for each 8 bytes. -/
theorem Inside.count {lo : ℕ} {rounds : List Visit} (h : Inside frame lo rounds) :
    rounds.length ≤ (frame.length - lo) / 8 := by
  induction rounds generalizing lo with
  | nil => exact Nat.zero_le _
  | cons v rounds ih =>
    obtain ⟨hv, hrest⟩ := inside_cons.1 h
    have hle := ih hrest
    rw [List.length_cons]
    omega

/-! ## The wrap -/

/-- Where the chain of TLVs from an offset on ends. -/
def stopAt (frame : List UInt8) (off : ℕ) : ℕ :=
  off + tlvItems.sizes (tlvItems.chain (frame.drop off))

/-- The end that the TLV at an offset claims. -/
def claimedEnd (frame : List UInt8) (off : ℕ) : ℕ :=
  off + 8 + tlvItems.len ((frame.drop off).take 8)

/-- **The offset wraps**: the TLV at which the chain stops has its header inside the frame and
claims an end so far beyond it that the sum in the next guard wraps to a value that passes, and
there is another round to come. -/
structure Wraps (frame : List UInt8) (off left : ℕ) : Prop where
  more : (tlvItems.chain (frame.drop off)).length + 1 < left
  header : stopAt frame off + 8 ≤ frame.length
  wraps : 2 ^ 32 ≤ claimedEnd frame (stopAt frame off) + 8
  passes : claimedEnd frame (stopAt frame off) + 8 ≤ 2 ^ 32 + frame.length

theorem stopAt_whole {off : ℕ} (hw : tlvItems.Whole (frame.drop off)) :
    stopAt frame (off + tlvItems.size (tlvItems.first (frame.drop off))) = stopAt frame off := by
  unfold stopAt
  rw [chain_whole hw, sizes_cons, ← List.drop_drop, ← ItemFormat.next_eq hw]
  omega

/-- A TLV that lies wholly inside the frame has no part in it. -/
theorem wraps_whole {off left : ℕ} (hw : tlvItems.Whole (frame.drop off)) :
    Wraps frame off (left + 1) ↔
      Wraps frame (off + tlvItems.size (tlvItems.first (frame.drop off))) left := by
  have hlen : (tlvItems.chain (frame.drop off)).length = (tlvItems.chain (frame.drop
      (off + tlvItems.size (tlvItems.first (frame.drop off))))).length + 1 := by
    rw [chain_whole hw, ← List.drop_drop, ← ItemFormat.next_eq hw, List.length_cons]
  constructor
  · rintro ⟨hmore, hheader, hwraps, hpasses⟩
    rw [← stopAt_whole hw] at hheader hwraps hpasses
    exact ⟨by omega, hheader, hwraps, hpasses⟩
  · rintro ⟨hmore, hheader, hwraps, hpasses⟩
    rw [stopAt_whole hw] at hheader hwraps hpasses
    exact ⟨by omega, hheader, hwraps, hpasses⟩

/-- At the end of the chain it is the first claim that counts. -/
theorem wraps_stop {off : ℕ} (hw : ¬ tlvItems.Whole (frame.drop off)) (left : ℕ) :
    Wraps frame off left ↔ 1 < left ∧ off + 8 ≤ frame.length ∧
      2 ^ 32 ≤ claimedEnd frame off + 8 ∧ claimedEnd frame off + 8 ≤ 2 ^ 32 + frame.length := by
  have hchain : tlvItems.chain (frame.drop off) = [] := chain_stop hw
  have hstop : stopAt frame off = off := by
    unfold stopAt
    rw [hchain]
    rfl
  constructor
  · rintro ⟨h1, h2, h3, h4⟩
    rw [hchain] at h1
    rw [hstop] at h2 h3 h4
    exact ⟨h1, h2, h3, h4⟩
  · rintro ⟨h1, h2, h3, h4⟩
    refine ⟨by rw [hchain]; exact h1, ?_, ?_, ?_⟩
    · rw [hstop]; exact h2
    · rw [hstop]; exact h3
    · rw [hstop]; exact h4

/-- The round at which the chain stops, and the one after it. -/
theorem inside_stop (htotal : total.toNat = frame.length) (hmax : frame.length ≤ tlvMaxFrame)
    (hoff : off.toNat ≤ frame.length) (hw : ¬ tlvItems.Whole (frame.drop off.toNat))
    {lo : ℕ} (hlo : lo ≤ off.toNat) (left : ℕ) :
    Inside frame lo (visits frame junk total left off) ↔ ¬ Wraps frame off.toNat left := by
  rw [wraps_stop hw]
  cases left with
  | zero => exact ⟨fun _ h => by omega, fun _ => inside_nil lo⟩
  | succ left =>
    by_cases hfit : off.toNat + 8 ≤ frame.length
    · obtain ⟨l, hlen, hvisits⟩ := visits_step junk htotal hmax hfit left
      rw [whole_iff hlen] at hw
      have hclaim : claimedEnd frame off.toNat = off.toNat + 8 + l.toNat := by
        unfold claimedEnd
        rw [hlen]
      have hnext : (off + (8 + l)).toNat = (off.toNat + 8 + l.toNat) % 2 ^ 32 := by
        simp [UInt32.toNat_add, Nat.add_assoc]
      have hguard : off + (8 + l) + 8 ≤ total ↔
          (off.toNat + 8 + l.toNat + 8) % 2 ^ 32 ≤ frame.length := by
        rw [UInt32.le_iff_toNat_le, UInt32.toNat_add, hnext, htotal]
        simp
      have hl := l.toNat_lt
      simp only [tlvMaxFrame] at hmax
      rw [hvisits, inside_cons, hclaim]
      cases left with
      | zero =>
        refine ⟨fun _ h => by omega, fun _ => ⟨⟨hlo, hfit⟩, inside_nil _⟩⟩
      | succ left =>
        rw [visits]
        by_cases hpass : off + (8 + l) + 8 ≤ total
        · -- the next round starts before the end of this one's header, or past the frame
          rw [if_pos hpass]
          rw [hguard] at hpass
          simp only [inside_cons, hnext]
          constructor
          · rintro ⟨-, ⟨h1, h2⟩, -⟩
            omega
          · intro h
            exact absurd (by omega) h
        · rw [if_neg hpass]
          rw [hguard] at hpass
          exact ⟨fun _ h => by omega, fun _ => ⟨⟨hlo, hfit⟩, inside_nil _⟩⟩
    · have hguard : ¬ off + 8 ≤ total := fun h => hfit ((guard_iff htotal hmax hoff).1 h)
      rw [visits, if_neg hguard]
      exact ⟨fun _ h => hfit h.2.1, fun _ => inside_nil lo⟩

/-- **The rounds stay inside the frame and advance exactly when the offset does not wrap.** -/
theorem inside_iff (htotal : total.toNat = frame.length) (hmax : frame.length ≤ tlvMaxFrame)
    (left : ℕ) (off : UInt32) (hoff : off.toNat ≤ frame.length) (lo : ℕ) (hlo : lo ≤ off.toNat) :
    Inside frame lo (visits frame junk total left off) ↔ ¬ Wraps frame off.toNat left := by
  induction left generalizing off lo with
  | zero => exact ⟨fun _ h => absurd h.more (Nat.not_lt_zero _), fun _ => inside_nil lo⟩
  | succ left ih =>
    by_cases hw : tlvItems.Whole (frame.drop off.toNat)
    · obtain ⟨l, hl, hnext, hroom, hvisits⟩ :=
        visits_whole junk htotal hmax hw left
      have hsize := tlvItems_size (tlvItems.first (frame.drop off.toNat))
      have hrest := ih (off + (8 + l)) (by omega) (off.toNat + 8) (by omega)
      rw [hvisits, inside_cons, hrest, wraps_whole hw, hnext]
      have hfit : off.toNat + 8 ≤ frame.length := by omega
      exact ⟨fun h => h.2, fun h => ⟨⟨hlo, hfit⟩, h⟩⟩
    · exact inside_stop junk htotal hmax hoff hw hlo (left + 1)

/-- **What the listing loops read.** Whatever lies after the frame in memory and whatever types
were seen before: both loops stay between the header and the end of the frame, each round
starts at least 8 bytes after the one before it and there are no more rounds than that leaves
room for, exactly when the offset does not wrap. -/
theorem listTypes_inside_iff (h : tlvFraming.IsFrame frame) (junk : ℕ → UInt8)
    (typesSeen : UInt32) : ∃ hdr listing, tlvHeaderGet frame = some hdr ∧
      listTypes frame junk typesSeen = some listing ∧
      ((∀ rounds ∈ [listing.first, listing.second], Inside frame tlvHdrLen rounds ∧
          rounds.length ≤ (frame.length - tlvHdrLen) / 8) ↔
        ¬ Wraps frame tlvHdrLen hdr.numTlvs.toNat) := by
  have hmax : frame.length ≤ tlvMaxFrame := h.le
  have hmin : tlvHdrLen ≤ frame.length := h.ge
  obtain ⟨hdr, hhdr, htotal⟩ := tlvHeaderGet_whole h
  have hiff : Inside frame tlvHdrLen (visits frame junk hdr.totalLen hdr.numTlvs.toNat 40) ↔
      ¬ Wraps frame tlvHdrLen hdr.numTlvs.toNat :=
    inside_iff junk htotal hmax hdr.numTlvs.toNat 40 hmin tlvHdrLen (le_refl tlvHdrLen)
  have hsound : ∀ rounds, rounds = visits frame junk hdr.totalLen hdr.numTlvs.toNat 40 →
      ((Inside frame tlvHdrLen rounds ∧ rounds.length ≤ (frame.length - tlvHdrLen) / 8) ↔
        ¬ Wraps frame tlvHdrLen hdr.numTlvs.toNat) := by
    rintro rounds rfl
    rw [← hiff]
    exact ⟨fun h => h.1, fun h => ⟨h, h.count⟩⟩
  unfold listTypes
  rw [hhdr]
  simp only [Option.bind_eq_bind, Option.bind_some]
  -- the second loop reads what the first one read, or does not run
  split_ifs with hnew
  · refine ⟨hdr, _, rfl, rfl, ?_⟩
    simp only [List.forall_mem_cons, List.not_mem_nil, false_imp_iff, implies_true, and_true]
    rw [hsound _ rfl, and_self]
  · refine ⟨hdr, _, rfl, rfl, ?_⟩
    simp only [List.forall_mem_cons, List.not_mem_nil, false_imp_iff, implies_true, and_true]
    rw [hsound _ rfl]
    exact ⟨fun h => h.1, fun h => ⟨h, inside_nil _, Nat.zero_le _⟩⟩

theorem listTypes_inside_presence : ∃ hdr listing, tlvHeaderGet presenceFrame = some hdr ∧
    listTypes presenceFrame (fun _ => 0) 0 = some listing ∧
    ((∀ rounds ∈ [listing.first, listing.second], Inside presenceFrame tlvHdrLen rounds ∧
        rounds.length ≤ (presenceFrame.length - tlvHdrLen) / 8) ↔
      ¬ Wraps presenceFrame tlvHdrLen hdr.numTlvs.toNat) :=
  listTypes_inside_iff presenceFrame_isFrame _ _

/-- A frame of 48 bytes that declares ten TLVs. The first claims `0xFFFFFFF8` bytes, which
brings the offset back to where it was. -/
def stuckFrame : List UInt8 :=
  [2, 1, 4, 3, 6, 5, 8, 7, 0, 3, 5, 5, 48, 0, 0, 0, 50, 100, 10, 0, 7, 0, 0, 0] ++
    List.replicate 8 0 ++ [10, 0, 0, 0, 0, 0, 0, 0, 0x3B, 1, 0, 0, 0xF8, 0xFF, 0xFF, 0xFF]

/-- **The walk does not advance** over such a frame: it reads the same TLV ten times. -/
theorem listTypes_stuck : ¬ ∀ (frame : List UInt8) (junk : ℕ → UInt8) (typesSeen : UInt32)
    (listing : Listing), tlvFraming.IsFrame frame →
      listTypes frame junk typesSeen = some listing →
      ∀ rounds ∈ [listing.first, listing.second],
        (∀ v ∈ rounds, tlvHdrLen ≤ v.off.toNat ∧ v.off.toNat + 8 ≤ frame.length) ∧
          rounds.length ≤ (frame.length - tlvHdrLen) / 8 := by
  intro hall
  have hframe : tlvFraming.IsFrame stuckFrame := ⟨by decide, by decide, by decide, by decide⟩
  have hrun : listTypes stuckFrame (fun _ => 0) 0 =
      some ⟨List.replicate 10 ⟨40, 315, 0xFFFFFFF8⟩, List.replicate 10 ⟨40, 315, 0xFFFFFFF8⟩,
        0x8000⟩ := by decide
  have hcount := (hall _ _ _ _ hframe hrun _ List.mem_cons_self).2
  revert hcount
  decide

/-! ## The two walks -/

/-- The rounds over TLVs that lie inside the frame. -/
def visitsOf : UInt32 → List Tlv → List Visit
  | _, [] => []
  | off, it :: items => ⟨off, it.type, .ofNat it.payload.length⟩ ::
      visitsOf (off + (8 + .ofNat it.payload.length)) items

/-- The declared TLVs, while they lie inside the frame, are the rounds. -/
theorem visits_chain (htotal : total.toNat = frame.length) (hmax : frame.length ≤ tlvMaxFrame)
    (left : ℕ) (off : UInt32) (hleft : left ≤ (tlvItems.chain (frame.drop off.toNat)).length) :
    visits frame junk total left off =
      visitsOf off ((tlvItems.chain (frame.drop off.toNat)).take left) := by
  induction left generalizing off with
  | zero => rfl
  | succ left ih =>
    have hw : tlvItems.Whole (frame.drop off.toNat) := by
      by_contra hw
      rw [chain_stop hw] at hleft
      exact absurd hleft (Nat.not_succ_le_zero _)
    obtain ⟨l, hl, hnext, -, hvisits⟩ := visits_whole junk htotal hmax hw left
    have hdrop : frame.drop (off + (8 + l)).toNat = tlvItems.next (frame.drop off.toNat) := by
      rw [hnext, ← List.drop_drop, ← ItemFormat.next_eq hw]
    rw [chain_whole hw, List.length_cons] at hleft
    rw [hvisits, ih _ (by rw [hdrop]; omega), hdrop, chain_whole hw, List.take_succ_cons, visitsOf,
      ← hl, UInt32.ofNat_toNat]

/-- What the walk would answer: a pointer behind the header of the first round of the type. -/
def walkAnswer (type : UInt32) (rounds : List Visit) : Option UInt32 × UInt32 :=
  match rounds.find? fun v => v.t = type with
  | some v => (some (v.off + 8), v.l)
  | none => (none, 0)

/-- **`tlv_find` agrees with a walk**: it returns a payload if and only if a round is of the
type, and then it is that of the first such round. -/
structure Agrees (type : UInt32) (r : Option UInt32 × UInt32) (rounds : List Visit) : Prop where
  found : r.1 ≠ none ↔ ∃ v ∈ rounds, v.t = type
  first : ∀ v, rounds.find? (fun v => v.t = type) = some v → r = (some (v.off + 8), v.l)

theorem agrees_iff_eq {type : UInt32} {r : Option UInt32 × UInt32} {rounds : List Visit}
    (hnull : r.1 = none → r.2 = 0) : Agrees type r rounds ↔ r = walkAnswer type rounds := by
  unfold walkAnswer
  cases hf : rounds.find? fun v => v.t = type with
  | none =>
    have hnone : ¬ ∃ v ∈ rounds, v.t = type := by
      simpa using hf
    constructor
    · intro h
      have h1 : r.1 = none := by
        by_contra hne
        exact hnone (h.found.1 hne)
      exact Prod.ext h1 (hnull h1)
    · rintro rfl
      exact ⟨⟨fun h => absurd rfl h, fun h => absurd h hnone⟩, fun v hv => by simp [hf] at hv⟩
  | some v =>
    have hsome : ∃ v ∈ rounds, v.t = type :=
      ⟨v, List.mem_of_find?_eq_some hf, by simpa using List.find?_some hf⟩
    constructor
    · intro h
      exact h.first v hf
    · rintro rfl
      refine ⟨⟨fun _ => hsome, fun _ => by simp⟩, fun w hw => ?_⟩
      rw [hf] at hw
      rw [Option.some.inj hw]

/-- Over TLVs that lie inside the frame the walk gives the reference answer. -/
theorem walkAnswer_answers (type : UInt32) (hmax : frame.length ≤ tlvMaxFrame)
    (items : List Tlv) (off : UInt32) (hroom : off.toNat + tlvItems.sizes items ≤ frame.length) :
    Answers type off.toNat items (walkAnswer type (visitsOf off items)) := by
  simp only [tlvMaxFrame] at hmax
  induction items generalizing off with
  | nil => exact answers_nil.2 rfl
  | cons it items ih =>
    have hsize := tlvItems_size it
    rw [sizes_cons] at hroom
    have hl : (UInt32.ofNat it.payload.length).toNat = it.payload.length :=
      UInt32.toNat_ofNat_of_lt' (by
        show it.payload.length < 2 ^ 32
        omega)
    have h8 : (off + 8).toNat = off.toNat + 8 := toNat_add_of_lt (by simp; omega)
    have hnext : (off + (8 + .ofNat it.payload.length)).toNat =
        off.toNat + tlvItems.size it := by
      rw [← UInt32.add_assoc, toNat_add_of_lt (by rw [h8, hl]; omega), h8, hl, hsize]
      omega
    unfold walkAnswer visitsOf
    by_cases htype : it.type = type
    · rw [List.find?_cons_of_pos (by simpa using htype)]
      exact (answers_cons_of_eq htype).2 ⟨_, rfl, h8, hl⟩
    · rw [List.find?_cons_of_neg (by simpa using htype)]
      have hans := ih (off + (8 + .ofNat it.payload.length)) (by omega)
      rw [hnext] at hans
      exact (answers_cons_of_ne htype).2 hans

/-- There is one answer. -/
theorem Answers.unique {type : UInt32} {off : ℕ} {items : List Tlv}
    {r r' : Option UInt32 × UInt32} (h : Answers type off items r)
    (h' : Answers type off items r') : r = r' := by
  induction items generalizing off with
  | nil => rw [answers_nil.1 h, answers_nil.1 h']
  | cons it items ih =>
    by_cases htype : it.type = type
    · obtain ⟨p, hp, hpv, hlen⟩ := (answers_cons_of_eq htype).1 h
      obtain ⟨p', hp', hpv', hlen'⟩ := (answers_cons_of_eq htype).1 h'
      have hpp : p = p' := UInt32.toNat_inj.1 (hpv.trans hpv'.symm)
      refine Prod.ext ?_ (UInt32.toNat_inj.1 (hlen.trans hlen'.symm))
      rw [hp, hp', hpp]
    · exact ih ((answers_cons_of_ne htype).1 h) ((answers_cons_of_ne htype).1 h')

/-- **What follows the first items matters** only if they hold none of the type and it does:
otherwise the answer is the same without it. -/
theorem answers_append {type : UInt32} {off : ℕ} {items tail : List Tlv}
    {r r' : Option UInt32 × UInt32} (h : Answers type off (items ++ tail) r)
    (h' : Answers type off items r') :
    r = r' ↔ (∃ it ∈ items, it.type = type) ∨ ∀ it ∈ tail, it.type ≠ type := by
  induction items generalizing off with
  | nil =>
    rw [answers_nil.1 h']
    obtain ⟨ptr, len⟩ := r
    simp only [List.nil_append] at h
    cases ptr with
    | none =>
      obtain ⟨hnone, rfl⟩ := h
      exact ⟨fun _ => .inr hnone, fun _ => rfl⟩
    | some p =>
      obtain ⟨before, it, after, rfl, htype, -⟩ := h
      constructor
      · intro hr
        simp at hr
      · rintro (⟨x, hx, -⟩ | hnone)
        · simp at hx
        · exact absurd htype (hnone it (by simp))
  | cons it items ih =>
    by_cases htype : it.type = type
    · have hit : Answers type off [it] r :=
        (answers_cons_of_eq htype).2 ((answers_cons_of_eq htype).1 h)
      have hit' : Answers type off [it] r' :=
        (answers_cons_of_eq htype).2 ((answers_cons_of_eq htype).1 h')
      have heq : r = r' := hit.unique hit'
      exact ⟨fun _ => .inl ⟨it, List.mem_cons_self, htype⟩, fun _ => heq⟩
    · rw [ih ((answers_cons_of_ne htype).1 h) ((answers_cons_of_ne htype).1 h')]
      simp [htype]

/-- What lies between the last of the first `n` TLVs and the end of the frame. -/
def padding (frame : List UInt8) (n : ℕ) : List UInt8 :=
  frame.drop (tlvHdrLen + tlvItems.sizes ((tlvChain frame).take n))

/-- **When the two walks agree.** Over a frame whose declared TLVs all lie inside it,
`tlv_find` agrees on a type with the first listing loop exactly when a declared TLV is of that
type, or the padding after them does not read as a TLV of it. -/
theorem agrees_iff (h : tlvFraming.IsFrame frame) (type : UInt32) (fuel : ℕ)
    (hfuel : (frame.length - tlvHdrLen) / 8 < fuel) (typesSeen : UInt32)
    {hdr : TlvHeader} (hhdr : tlvHeaderGet frame = some hdr)
    (htidy : hdr.numTlvs.toNat ≤ (tlvChain frame).length) :
    ∃ r listing, tlvFindPtr frame type fuel = .ok r ∧
      listTypes frame junk typesSeen = some listing ∧
      (Agrees type r listing.first ↔
        (∃ it ∈ (tlvChain frame).take hdr.numTlvs.toNat, it.type = type) ∨
          ∀ it ∈ tlvItems.chain (padding frame hdr.numTlvs.toNat), it.type ≠ type) := by
  have hmax : frame.length ≤ tlvMaxFrame := h.le
  have hmin : tlvHdrLen ≤ frame.length := h.ge
  set n := hdr.numTlvs.toNat with hn
  obtain ⟨hdr', hhdr', htotal⟩ := tlvHeaderGet_whole h
  obtain rfl : hdr = hdr' := Option.some.inj (hhdr.symm.trans hhdr')
  obtain ⟨ptr, len, hrun, hans⟩ := tlvFindPtr_answers h type hfuel
  have hlist : ∃ listing, listTypes frame junk typesSeen = some listing ∧
      listing.first = visits frame junk hdr.totalLen n 40 := by
    unfold listTypes
    rw [hhdr]
    simp only [Option.bind_eq_bind, Option.bind_some]
    split_ifs
    · exact ⟨_, rfl, rfl⟩
    · exact ⟨_, rfl, rfl⟩
  obtain ⟨listing, hlisting, hfirst⟩ := hlist
  refine ⟨(ptr, len), listing, hrun, hlisting, ?_⟩
  -- the declared TLVs are the rounds, so the walk gives the answer in them
  have hvisits : visits frame junk hdr.totalLen n 40 = visitsOf 40 ((tlvChain frame).take n) :=
    visits_chain junk htotal hmax n 40 htidy
  have hsplit : tlvItems.sizes ((tlvChain frame).take n) ≤ frame.length - tlvHdrLen := by
    have hle := sizes_take_le (F := tlvItems) (frame.drop tlvHdrLen) n
    rw [List.length_drop] at hle
    exact hle
  have hwalk : Answers type tlvHdrLen ((tlvChain frame).take n)
      (walkAnswer type (visitsOf 40 ((tlvChain frame).take n))) :=
    walkAnswer_answers type hmax _ 40 (by
      show 40 + _ ≤ _
      simp only [tlvHdrLen] at hsplit hmin
      omega)
  have hpad : tlvItems.chain (padding frame n) = (tlvChain frame).drop n := by
    unfold padding
    rw [← List.drop_drop]
    exact chain_drop _ _
  have hnull : (ptr, len).1 = none → (ptr, len).2 = 0 := by
    rintro rfl
    exact hans.2
  rw [← List.take_append_drop n (tlvChain frame)] at hans
  rw [agrees_iff_eq hnull, hfirst, hvisits, hpad]
  exact answers_append hans hwalk

/-- The frame of one TLV, and 8 bytes of padding that read as a target list of length 0. -/
def paddedFrame : List UInt8 :=
  [2, 1, 4, 3, 6, 5, 8, 7, 0, 3, 5, 5, 58, 0, 0, 0, 50, 100, 10, 0, 7, 0, 0, 0] ++
    List.replicate 8 0 ++ [1, 0, 0, 0, 0, 0, 0, 0, 0x3B, 1, 0, 0, 2, 0, 0, 0, 1, 1] ++
    [0x34, 1, 0, 0, 0, 0, 0, 0]

theorem paddedFrame_isFrame : tlvFraming.IsFrame paddedFrame :=
  ⟨by decide, by decide, by decide, by decide⟩

theorem paddedFrame_chain :
    tlvChain paddedFrame = [⟨tlvEnhancedPresence, [1, 1]⟩, ⟨tlvTargetList, []⟩] := by
  unfold tlvChain
  rw [chain_whole (by decide), chain_whole (by decide), chain_stop (by decide)]
  decide

/-- The declared TLV is found by both walks. -/
theorem agrees_declared : ∃ r listing, tlvFindPtr paddedFrame tlvEnhancedPresence 4 = .ok r ∧
    listTypes paddedFrame (fun _ => 0) 0 = some listing ∧
    Agrees tlvEnhancedPresence r listing.first := by
  have hhdr : tlvHeaderGet paddedFrame =
      some ⟨0x05050300, 58, 0x000a6432, 7, 0, 0, 1, 0⟩ := by decide
  obtain ⟨r, listing, hrun, hlisting, hiff⟩ := agrees_iff (fun _ => 0) paddedFrame_isFrame
    tlvEnhancedPresence 4 (by decide) 0 hhdr (by rw [paddedFrame_chain]; decide)
  refine ⟨r, listing, hrun, hlisting, hiff.2 (.inl ⟨⟨tlvEnhancedPresence, [1, 1]⟩, ?_, rfl⟩)⟩
  rw [paddedFrame_chain]
  exact List.mem_cons_self

/-- **A target list is invented**: the header declares one TLV, and `tlv_find` returns a
second one. -/
theorem tlvFind_padding : ¬ ∀ (frame : List UInt8) (type : UInt32) (fuel : ℕ)
    (junk : ℕ → UInt8) (typesSeen : UInt32) (hdr : TlvHeader) (r : Option UInt32 × UInt32)
    (listing : Listing), tlvFraming.IsFrame frame → tlvHeaderGet frame = some hdr →
      hdr.numTlvs.toNat ≤ (tlvChain frame).length → tlvFindPtr frame type fuel = .ok r →
      listTypes frame junk typesSeen = some listing → Agrees type r listing.first := by
  intro hall
  have hrun : tlvFindPtr paddedFrame tlvTargetList 4 = .ok (some 58, 0) := by decide
  have hlisting : listTypes paddedFrame (fun _ => 0) 0 = some ⟨[⟨40, 315, 2⟩], [⟨40, 315, 2⟩],
      0x8000⟩ := by decide
  have hagrees := hall _ _ 4 (fun _ => 0) 0 ⟨0x05050300, 58, 0x000a6432, 7, 0, 0, 1, 0⟩ _ _
    paddedFrame_isFrame (by decide) (by rw [paddedFrame_chain]; decide) hrun hlisting
  obtain ⟨v, hv, htype⟩ := hagrees.found.1 (by simp)
  obtain rfl := List.mem_singleton.1 hv
  exact absurd htype (by decide)

end PresenceNode
