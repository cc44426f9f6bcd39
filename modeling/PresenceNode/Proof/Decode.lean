import PresenceNode.Proof.Lookup
import PresenceNode.Proof.Stream
import PresenceNode.Spec.Encode

/-!
# Frame decode undoes encode

* `rdU32_words`: words written one after another are read back at their index.
* `buildFrame_isFrame`, `buildFrame_chain`: what is built is a frame, and its TLVs are those it
  was built of.
* `targetsOf_flatten`: targets of one size are read back one by one; `targets2d_not_3d`: no
  list of 2D targets that fits in a frame has a length that the 3D size divides.
* `zoneState_putZones`: each zone is read back.
* `tlv_frame_round_trip`: all of it, for all header fields and TLVs.
-/

namespace PresenceNode

open LittleEndian ItemFormat

/-! ## Words -/

@[simp] theorem putU32_length (v : UInt32) : (putU32 v).length = 4 := enc_length 4 _

theorem putU32s_cons (w : UInt32) (ws : List UInt32) :
    putU32s (w :: ws) = putU32 w ++ putU32s ws := rfl

@[simp] theorem putU32s_length (ws : List UInt32) : (putU32s ws).length = 4 * ws.length := by
  induction ws with
  | nil => rfl
  | cons w ws ih =>
    rw [putU32s_cons, List.length_append, putU32_length, ih, List.length_cons]
    omega

theorem rdU32_put {bs tail : List UInt8} {off : ℕ} {v : UInt32}
    (h : bs.drop off = putU32 v ++ tail) : rdU32 bs off = some v := by
  have hlen : off + 4 ≤ bs.length := by
    have hdrop := congrArg List.length h
    rw [List.length_drop, List.length_append, putU32_length] at hdrop
    omega
  obtain ⟨w, hw, hval⟩ := rdU32_some bs off hlen
  have hdec : dec (putU32 v) = v.toNat := dec_enc v.toNat_lt
  rw [h, List.take_left' (putU32_length v), hdec] at hval
  rw [hw, UInt32.toNat_inj.1 hval]

/-- **Words written one after another are read back** at their index. -/
theorem rdU32_words {bs tail : List UInt8} (ws : List UInt32) (off : ℕ)
    (h : bs.drop off = putU32s ws ++ tail) (i : ℕ) (hi : i < ws.length) :
    rdU32 bs (off + 4 * i) = some ws[i] := by
  induction ws generalizing off i with
  | nil => exact absurd hi (Nat.not_lt_zero i)
  | cons w ws ih =>
    rw [putU32s_cons, List.append_assoc] at h
    cases i with
    | zero => exact rdU32_put h
    | succ i =>
      have hrest : bs.drop (off + 4) = putU32s ws ++ tail := by
        rw [← List.drop_drop, h, List.drop_left' (putU32_length w)]
      have hoff : off + 4 * (i + 1) = off + 4 + 4 * i := by omega
      rw [hoff]
      exact ih (off + 4) hrest i (by simpa using hi)

/-! ## Frames -/

section Build

variable (f : FrameFields) (tlvs : List Tlv)

/-- The header of the frame that is built. -/
def builtHeader : TlvHeader := f.header (.ofNat (tlvHdrLen + (putTlvs tlvs).length))

theorem buildFrame_eq : buildFrame f tlvs =
    tlvMagic.toList ++ (putU32s (builtHeader f tlvs).words ++ putTlvs tlvs) :=
  List.append_assoc _ _ _

theorem buildFrame_length : (buildFrame f tlvs).length = tlvHdrLen + (putTlvs tlvs).length := by
  have hmagic : tlvMagic.toList.length = 8 := rfl
  have hwords : (builtHeader f tlvs).words.length = 8 := rfl
  rw [buildFrame_eq, List.length_append, List.length_append, hmagic, putU32s_length, hwords]
  simp only [tlvHdrLen]
  omega

theorem buildFrame_word (i : ℕ) (hi : i < 8) : rdU32 (buildFrame f tlvs) (8 + 4 * i) =
    some ((builtHeader f tlvs).words.get ⟨i, hi⟩) := by
  have hdrop : (buildFrame f tlvs).drop 8 =
      putU32s (builtHeader f tlvs).words ++ putTlvs tlvs := by
    rw [buildFrame_eq]
    exact List.drop_left' rfl
  exact rdU32_words _ 8 hdrop i hi

variable {f tlvs}

/-- **The header is read back.** -/
theorem tlvHeaderGet_buildFrame :
    tlvHeaderGet (buildFrame f tlvs) = some (builtHeader f tlvs) := by
  have hword := buildFrame_word f tlvs
  unfold tlvHeaderGet
  rw [hword 0 (by decide), hword 1 (by decide), hword 2 (by decide), hword 3 (by decide),
    hword 4 (by decide), hword 5 (by decide), hword 6 (by decide), hword 7 (by decide)]
  rfl

/-- **What is built is a frame**, if it is not too long. -/
theorem buildFrame_isFrame (hlen : (buildFrame f tlvs).length ≤ tlvMaxFrame) :
    tlvFraming.IsFrame (buildFrame f tlvs) := by
  have hsize := buildFrame_length f tlvs
  refine ⟨?_, ?_, hlen, ?_⟩
  · rw [buildFrame_eq]
    exact List.prefix_append _ _
  · show tlvHdrLen ≤ _
    omega
  · obtain ⟨total, ht, htotal⟩ := rdU32_some (buildFrame f tlvs) 12 (by
      simp only [tlvHdrLen] at hsize
      omega)
    have hword := buildFrame_word f tlvs 1 (by decide)
    rw [ht] at hword
    have htl : total = .ofNat (tlvHdrLen + (putTlvs tlvs).length) := Option.some.inj hword
    show totalPacketLen (buildFrame f tlvs) = _
    unfold totalPacketLen
    simp only [tlvMaxFrame] at hlen
    rw [← htotal, htl, ← hsize, UInt32.toNat_ofNat_of_lt' (by
      show _ < 2 ^ 32
      omega)]

theorem dec_putU32 (v : UInt32) : dec (putU32 v) = v.toNat := dec_enc v.toNat_lt

/-- A TLV that was written is an item. -/
theorem putTlv_isItem {it : Tlv} (hlen : it.payload.length < 2 ^ 32) :
    tlvItems.IsItem it (putTlv it) := by
  have hhead : (putU32s [it.type, .ofNat it.payload.length]).length = 8 := by simp
  have htake : (putTlv it).take 8 = putU32 it.type ++ putU32 (.ofNat it.payload.length) :=
    (List.take_left' hhead).trans (by simp [putU32s])
  have htype : ((putTlv it).take 8).take 4 = putU32 it.type := by
    rw [htake, List.take_left' (putU32_length _)]
  have hword : (((putTlv it).take 8).drop 4).take 4 = putU32 (.ofNat it.payload.length) := by
    rw [htake, List.drop_left' (putU32_length _), List.take_of_length_le (by simp)]
  refine ⟨List.drop_left' hhead, ?_, ?_, ?_⟩
  · rw [tlvItems_size, putTlv, List.length_append, hhead]
  · show UInt32.ofNat (dec (((putTlv it).take 8).take 4)) = _
    rw [htype, dec_putU32, UInt32.ofNat_toNat]
  · show dec ((((putTlv it).take 8).drop 4).take 4) = _
    rw [hword, dec_putU32, UInt32.toNat_ofNat_of_lt' hlen]

/-- The room that TLVs take is that of each of them. -/
theorem putTlvs_payload {it : Tlv} (h : it ∈ tlvs) :
    8 + it.payload.length ≤ (putTlvs tlvs).length := by
  have hle : (putTlv it).length ≤ (putTlvs tlvs).length :=
    (List.sublist_flatten_of_mem (List.mem_map_of_mem h)).length_le
  have hsize : (putTlv it).length = 8 + it.payload.length := by
    rw [putTlv, List.length_append, putU32s_length]
    rfl
  omega

/-- **The TLVs of what is built** are those it was built of. -/
theorem buildFrame_chain (hlen : (buildFrame f tlvs).length ≤ tlvMaxFrame) :
    tlvChain (buildFrame f tlvs) = tlvs := by
  have hsize := buildFrame_length f tlvs
  have hhdr : (tlvMagic.toList ++ putU32s (builtHeader f tlvs).words).length = tlvHdrLen := rfl
  have hdrop : (buildFrame f tlvs).drop tlvHdrLen = putTlvs tlvs :=
    List.drop_left' hhdr
  have hitems : ∀ it ∈ tlvs, tlvItems.IsItem it (putTlv it) := by
    intro it hit
    have hle := putTlvs_payload hit
    simp only [tlvMaxFrame] at hlen
    exact putTlv_isItem (by omega)
  have hnil : tlvItems.chain [] = [] := chain_short (Nat.succ_pos 7)
  have hchain := chain_flatten hitems []
  rw [List.append_nil, hnil, List.append_nil] at hchain
  unfold tlvChain
  rw [hdrop]
  exact hchain

end Build

/-! ## Targets -/

section Targets

variable {τ : Type*} {size : ℕ} {put : τ → List UInt8} {get : τ → TlvTarget}

/-- **Targets of one size, one after another, are read back one by one**, as many as there is
room for. -/
theorem targetsOf_flatten (hpos : 0 < size) (hlen : ∀ t, (put t).length = size)
    (hread : ∀ t tail, targetAt size (put t ++ tail) = some (get t)) (max : ℕ) (ts : List τ) :
    ∃ out, targetsOf size max (ts.map put).flatten = some out ∧
      out.1 = (ts.map get).take max := by
  induction max generalizing ts with
  | zero => exact ⟨_, rfl, rfl⟩
  | succ max ih =>
    unfold targetsOf
    cases ts with
    | nil =>
      have hnil : (([] : List τ).map put).flatten.length = 0 := rfl
      rw [if_neg (by omega)]
      exact ⟨_, rfl, rfl⟩
    | cons t ts =>
      obtain ⟨out, hout, hts⟩ := ih ts
      have hfit : size ≤ (put t ++ (ts.map put).flatten).length := by
        rw [List.length_append, hlen t]
        omega
      rw [List.map_cons, List.flatten_cons, if_pos hfit, hread, List.drop_left' (hlen t), hout]
      refine ⟨_, rfl, ?_⟩
      rw [List.map_cons, List.take_succ_cons, ← hts]

theorem flatten_length (hlen : ∀ t, (put t).length = size) (ts : List τ) :
    (ts.map put).flatten.length = size * ts.length := by
  induction ts with
  | nil => rfl
  | cons t ts ih =>
    rw [List.map_cons, List.flatten_cons, List.length_append, hlen t, ih, List.length_cons,
      Nat.mul_succ, Nat.add_comm]

end Targets

theorem putTarget3d_length (t : SentTarget 24) : (putTarget3d t).length = target3dSize := by
  rw [putTarget3d, putU32s_length, List.length_append, Vector.length_toList]
  rfl

theorem putTarget2d_length (t : SentTarget 16) : (putTarget2d t).length = target2dSize := by
  rw [putTarget2d, putU32s_length, List.length_append, Vector.length_toList]
  rfl

/-- The words of a target are where they are read. -/
theorem targetAt_words {size : ℕ} {t tail : List UInt8} {w0 w1 w2 w3 : UInt32}
    {ws : List UInt32} (h : t = putU32s (w0 :: w1 :: w2 :: w3 :: ws) ++ tail) :
    targetAt size t = some ⟨w0, w1, w2, if size = target3dSize then w3 else 0⟩ := by
  have hword := rdU32_words (w0 :: w1 :: w2 :: w3 :: ws) 0 h
  have h0 : rdU32 t 0 = some w0 := hword 0 (by simp)
  have h1 : rdU32 t 4 = some w1 := hword 1 (by simp)
  have h2 : rdU32 t 8 = some w2 := hword 2 (by simp)
  have h3 : rdU32 t 12 = some w3 := hword 3 (by simp)
  unfold targetAt
  rw [h0, h1, h2, h3]
  by_cases hd : size = target3dSize
  · simp only [hd, if_true]
    rfl
  · simp only [hd, if_false]
    rfl

theorem targetAt_3d (t : SentTarget 24) (tail : List UInt8) :
    targetAt target3dSize (putTarget3d t ++ tail) = some t.target := by
  have hput : putTarget3d t ++ tail = putU32s (t.target.tid :: t.target.x :: t.target.y ::
      t.target.z :: t.others.toList) ++ tail := rfl
  rw [targetAt_words hput, if_pos rfl]

/-- A 2D target is followed by the first of the other words, which is not read as `z`. -/
theorem targetAt_2d (t : SentTarget 16) (tail : List UInt8) :
    targetAt target2dSize (putTarget2d t ++ tail) = some { t.target with z := 0 } := by
  obtain ⟨w, ws, hws⟩ : ∃ w ws, t.others.toList = w :: ws := by
    cases h : t.others.toList with
    | nil =>
      have hlen := t.others.length_toList
      rw [h] at hlen
      exact absurd hlen (by decide)
    | cons w ws => exact ⟨w, ws, rfl⟩
  have hput : putTarget2d t ++ tail =
      putU32s (t.target.tid :: t.target.x :: t.target.y :: w :: ws) ++ tail := by
    rw [putTarget2d, hws]
    rfl
  rw [targetAt_words hput, if_neg (by decide)]

/-- Targets, one after another. -/
def putTargets3d (ts : List (SentTarget 24)) : List UInt8 := (ts.map putTarget3d).flatten

def putTargets2d (ts : List (SentTarget 16)) : List UInt8 := (ts.map putTarget2d).flatten

/-- **3D targets are read back.** -/
theorem tlvTargets_3d (ts : List (SentTarget 24)) (max : ℕ) :
    ∃ out, tlvTargets (putTargets3d ts) max = some out ∧
      out.1 = (ts.map SentTarget.target).take max := by
  have hlen : (putTargets3d ts).length = target3dSize * ts.length :=
    flatten_length putTarget3d_length ts
  unfold tlvTargets
  by_cases h0 : (putTargets3d ts).length = 0
  · have hts : ts = [] := by
      rw [hlen] at h0
      exact List.length_eq_zero_iff.1 (by simp only [target3dSize] at h0; omega)
    rw [if_pos h0, hts]
    exact ⟨_, rfl, by simp⟩
  · rw [if_neg h0, if_pos (by rw [hlen, Nat.mul_mod_right])]
    exact targetsOf_flatten (by decide) putTarget3d_length targetAt_3d max ts

/-- **No list of 2D targets that fits in a frame is read as 3D**: the first length that both
sizes divide is 2128. -/
theorem targets2d_not_3d {n : ℕ} (hn : n ≠ 0) (hfit : target2dSize * n ≤ tlvMaxFrame) :
    target2dSize * n % target3dSize ≠ 0 := by
  simp only [target2dSize, target3dSize, tlvMaxFrame] at *
  omega

/-- **2D targets are read back**, with `z` as 0. -/
theorem tlvTargets_2d (ts : List (SentTarget 16)) (max : ℕ)
    (hfit : (putTargets2d ts).length ≤ tlvMaxFrame) :
    ∃ out, tlvTargets (putTargets2d ts) max = some out ∧
      out.1 = (ts.map fun t => { t.target with z := 0 }).take max := by
  have hlen : (putTargets2d ts).length = target2dSize * ts.length :=
    flatten_length putTarget2d_length ts
  unfold tlvTargets
  by_cases h0 : (putTargets2d ts).length = 0
  · have hts : ts = [] := by
      rw [hlen] at h0
      exact List.length_eq_zero_iff.1 (by simp only [target2dSize] at h0; omega)
    rw [if_pos h0, hts]
    exact ⟨_, rfl, by simp⟩
  · have hn : ts.length ≠ 0 := by
      intro h
      rw [hlen, h] at h0
      exact h0 rfl
    have h3 : ¬ (putTargets2d ts).length % target3dSize = 0 := by
      rw [hlen] at hfit ⊢
      exact targets2d_not_3d hn hfit
    rw [if_neg h0, if_neg h3, if_pos (by rw [hlen, Nat.mul_mod_right])]
    exact targetsOf_flatten (by decide) putTarget2d_length targetAt_2d max ts

/-! ## Zones -/

/-- The two bits of each of four zones in a byte. -/
theorem packed_bits (a b c d j : Fin 4) :
    (UInt8.ofNat (a.val + 4 * b.val + 16 * c.val + 64 * d.val) >>> UInt8.ofNat (2 * j.val)) &&& 3 =
      UInt8.ofNat ([a, b, c, d].get j).val := by
  revert a b c d j
  decide

theorem packZones_bits (states : List (Fin 4)) (i : ℕ) (j : Fin 4) :
    (packZones states i >>> UInt8.ofNat (2 * j.val)) &&& 3 =
      UInt8.ofNat (states.getD (4 * i + j.val) 0).val := by
  have hget : [states.getD (4 * i) 0, states.getD (4 * i + 1) 0, states.getD (4 * i + 2) 0,
      states.getD (4 * i + 3) 0].get j = states.getD (4 * i + j.val) 0 := by
    match j with
    | 0 => rfl
    | 1 => rfl
    | 2 => rfl
    | 3 => rfl
  rw [← hget]
  exact packed_bits _ _ _ _ j

/-- **Each zone is read back.** -/
theorem zoneState_putZones (zones : Zones) {z : ℕ} (hz : z < zones.1.length) :
    zoneState (putZones zones) z = .ofNat (zones.1[z]).val := by
  have hin : z / 4 < (zones.1.length + 3) / 4 := by omega
  have hlen : 1 + z / 4 < (putZones zones).length := by
    rw [putZones, List.length_cons, List.length_map, List.length_range]
    omega
  have hbyte : (putZones zones).getD (1 + z / 4) 0 = packZones zones.1 (z / 4) := by
    rw [putZones, Nat.add_comm 1, List.getD_cons_succ,
      List.getD_eq_getElem _ _ (by simpa using hin), List.getElem_map, List.getElem_range]
  have hidx : 4 * (z / 4) + z % 4 = z := Nat.div_add_mod z 4
  have hbits := packZones_bits zones.1 (z / 4) ⟨z % 4, Nat.mod_lt _ (by decide)⟩
  simp only [hidx] at hbits
  unfold zoneState
  rw [if_pos hlen, hbyte, hbits, List.getD_eq_getElem _ _ hz]

/-- **Zones are read back**, in their order, as many as there is room for. -/
theorem tlvPresence_putZones (zones : Zones) (max : ℕ) : tlvPresence (putZones zones) max =
    (zones.1.map fun s => UInt8.ofNat s.val).take max := by
  have hlen : (putZones zones).length = 1 + (zones.1.length + 3) / 4 := by
    rw [putZones, List.length_cons, List.length_map, List.length_range, Nat.add_comm]
  unfold tlvPresence
  by_cases h2 : (putZones zones).length < 2
  · have h0 : zones.1 = [] := List.length_eq_zero_iff.1 (by omega)
    rw [if_pos h2, h0]
    simp
  · have hcount : ((putZones zones).getD 0 0).toNat = zones.1.length :=
      UInt8.toNat_ofNat_of_lt' zones.2
    rw [if_neg h2, hcount]
    apply List.ext_getElem
    · simp [Nat.min_comm]
    · intro z h1 h3
      have hz : z < zones.1.length := by
        rw [List.length_map, List.length_range] at h1
        omega
      rw [List.getElem_map, List.getElem_range, List.getElem_take, List.getElem_map]
      exact zoneState_putZones zones hz

/-! ## The round trip -/

/-- **Frame decode undoes encode.** For all header fields and TLVs whose frame is not too long:
its bytes, pushed from reset, emit it at the last one; the header is read back; for each type
the first payload of that type is found, or none; and what that payload encodes is read back,
as much of it as there is room for: targets in the 3D layout, targets in the 2D layout with `z`
as 0, and zones. -/
theorem tlv_frame_round_trip (r : Reasm) (f : FrameFields) (tlvs : List Tlv)
    (hlen : (buildFrame f tlvs).length ≤ tlvMaxFrame) :
    (∃ r', feed (tlvReset r) (buildFrame f tlvs) =
        some (r', Framing.outs (buildFrame f tlvs))) ∧
      tlvHeaderGet (buildFrame f tlvs) =
        some (f.header (.ofNat (buildFrame f tlvs).length)) ∧
      (∀ type, tlvFind (buildFrame f tlvs) type =
        some ((lookup type tlvs).map Item.payload)) ∧
      ∀ type payload, (lookup type tlvs).map Item.payload = some payload → ∀ max,
        (∀ ts, payload = putTargets3d ts → ∃ out, tlvTargets payload max = some out ∧
          out.1 = (ts.map SentTarget.target).take max) ∧
        (∀ ts, payload = putTargets2d ts → ∃ out, tlvTargets payload max = some out ∧
          out.1 = (ts.map fun t => { t.target with z := 0 }).take max) ∧
        ∀ zones : Zones, payload = putZones zones → tlvPresence payload max =
          (zones.1.map fun s => UInt8.ofNat s.val).take max := by
  have hframe := buildFrame_isFrame hlen
  have hsize := buildFrame_length f tlvs
  refine ⟨?_, ?_, fun type => ?_, fun type payload hpayload max => ⟨?_, ?_, ?_⟩⟩
  · obtain ⟨r', hr, -⟩ := feed_reset r (buildFrame f tlvs)
    rw [Framing.run_frame hframe 0] at hr
    exact ⟨r', hr⟩
  · rw [hsize]
    exact tlvHeaderGet_buildFrame
  · rw [tlvFind_eq hframe, buildFrame_chain hlen]
  · rintro ts rfl
    exact tlvTargets_3d ts max
  · rintro ts rfl
    -- the payload is inside the frame, so it is short of the length that 112 divides too
    obtain ⟨it, hit, hpay⟩ := Option.map_eq_some_iff.1 hpayload
    have hle := putTlvs_payload (List.mem_of_find?_eq_some hit)
    rw [hpay] at hle
    exact tlvTargets_2d ts max (by omega)
  · rintro zones rfl
    exact tlvPresence_putZones zones max

theorem testZones_fit : (List.finRange 4).length < 256 := by decide

/-- The header fields and the TLVs of `build_frame(42, 1)`, with one target, in the layout of
`check_2d_targets`. -/
def testFields : FrameFields := ⟨0x05050300, 0x000a6432, 42, 0, 1, 3, 0xFFFFFFFF⟩

def testTarget : SentTarget 16 := ⟨⟨4, 0xBFA00000, 0x40200000, 0⟩, Vector.replicate 16 0⟩

def testTlvs : List Tlv :=
  [⟨306, List.replicate 24 0⟩, ⟨tlvTargetList, putTargets2d [testTarget]⟩,
    ⟨tlvEnhancedPresence, putZones ⟨_, testZones_fit⟩⟩]

theorem tlv_frame_round_trip_test :
    (∃ r', feed (tlvReset .zero) (buildFrame testFields testTlvs) =
      some (r', Framing.outs (buildFrame testFields testTlvs))) ∧
    ∃ out, tlvTargets (putTargets2d [testTarget]) 8 = some out ∧ out.1 = [testTarget.target] := by
  obtain ⟨hfeed, -, -, hpayload⟩ :=
    tlv_frame_round_trip .zero testFields testTlvs (by decide +kernel)
  have hfound : (lookup tlvTargetList testTlvs).map Item.payload =
      some (putTargets2d [testTarget]) := by
    have hstats : (306 : UInt32) ≠ tlvTargetList := by decide
    have hlist : lookup tlvTargetList testTlvs =
        some ⟨tlvTargetList, putTargets2d [testTarget]⟩ :=
      (lookup_cons_of_ne hstats).trans (lookup_cons_of_eq rfl)
    rw [hlist]
    rfl
  obtain ⟨-, h2d, -⟩ := hpayload tlvTargetList _ hfound 8
  exact ⟨hfeed, h2d [testTarget] rfl⟩

end PresenceNode
