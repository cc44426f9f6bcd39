import PresenceNode.Proof.Decode

/-!
# What a frame counts for, and a window

* `decided_list`, `decided_zones`: what is decided of a frame with a target list, and of one
  that has presence zones only.
* `decided_zones_iff`: a frame counts as its zones say, unless the only active ones are beyond
  the eighth; `ninth_zone` is a frame where they are.
* `maxN_tracked_iff`: the largest count of a window comes from the tracker, or it does not.
* `headcount_tracked_iff`: so it is for the record of every window, over every history;
  `headcount_mixed` is a window in which a presence frame is counted as a person.
-/

namespace PresenceNode

open ItemFormat

variable {frame payload : List UInt8}

/-! ## What is decided of a frame -/

theorem decided_list (h : tlvFind frame tlvTargetList = some (some payload)) :
    ∃ ts, tlvTargets payload radarMaxTargets = some ts ∧
      decided frame = some ⟨ts.1.length, true, ts.2⟩ := by
  obtain ⟨ts, hts⟩ := tlvTargets_some payload radarMaxTargets
  refine ⟨ts, hts, ?_⟩
  unfold decided
  rw [h]
  simp only [Option.bind_eq_bind, Option.bind_some, hts]
  rfl

/-- A declared zone whose two bits lie inside the payload is not at rest. -/
structure ZoneActive (payload : List UInt8) (z : ℕ) : Prop where
  declared : z < (payload.getD 0 0).toNat
  inside : 1 + z / 4 < payload.length
  state : zoneState payload z ≠ tlvZoneNone

/-- The first eight zones decide. -/
theorem presence_any (hlen : 2 ≤ payload.length) :
    (tlvPresence payload 8).any (· ≠ tlvZoneNone) = true ↔ ∃ z < 8, ZoneActive payload z := by
  have hzones : tlvPresence payload 8 =
      (List.range (min (payload.getD 0 0).toNat 8)).map (zoneState payload) := by
    unfold tlvPresence
    rw [if_neg (by omega)]
    rfl
  rw [hzones, List.any_map, List.any_eq_true]
  constructor
  · rintro ⟨z, hz, hstate⟩
    have hz := List.mem_range.1 hz
    have hstate : zoneState payload z ≠ tlvZoneNone := by simpa using hstate
    refine ⟨z, by omega, by omega, ?_, hstate⟩
    -- a zone outside the payload reads as at rest
    by_contra hout
    apply hstate
    unfold zoneState
    rw [if_neg hout]
    rfl
  · rintro ⟨z, hz, hdecl, -, hstate⟩
    exact ⟨z, List.mem_range.2 (by omega), by simpa using hstate⟩

theorem decided_zones (hlist : tlvFind frame tlvTargetList = some none)
    (hzones : tlvFind frame tlvEnhancedPresence = some (some payload))
    (hlen : 2 ≤ payload.length) : ∃ d, decided frame = some d ∧ d.tracker = false ∧ d.n ≤ 1 ∧
      (d.n = 1 ↔ ∃ z < 8, ZoneActive payload z) := by
  rw [← presence_any hlen]
  unfold decided
  rw [hlist]
  simp only [Option.bind_eq_bind, Option.bind_some, hzones]
  split_ifs with hany
  · exact ⟨_, rfl, rfl, le_refl 1, fun _ => hany, fun _ => rfl⟩
  · exact ⟨_, rfl, rfl, Nat.zero_le 1, fun h => absurd h (by simp), fun h => absurd h hany⟩

/-- **When motion in a zone counts.** A frame that has no target list and a presence payload of
at least two bytes is counted as occupied if any zone inside the payload is active, and as empty
otherwise, exactly when one of the first eight zones is active or none of the later ones is. -/
theorem decided_zones_iff (hlist : tlvFind frame tlvTargetList = some none)
    (hzones : tlvFind frame tlvEnhancedPresence = some (some payload))
    (hlen : 2 ≤ payload.length) : ∃ d, decided frame = some d ∧
      (((d.n = 1 ↔ ∃ z, ZoneActive payload z) ∧ (d.n = 0 ↔ ¬ ∃ z, ZoneActive payload z)) ↔
        (∃ z < 8, ZoneActive payload z) ∨ ∀ z, 8 ≤ z → ¬ ZoneActive payload z) := by
  obtain ⟨d, hd, -, hle, hone⟩ := decided_zones hlist hzones hlen
  refine ⟨d, hd, ?_⟩
  have hzero : d.n = 0 ↔ ¬ ∃ z < 8, ZoneActive payload z := by
    rw [← hone]
    omega
  rw [hone, hzero]
  constructor
  · rintro ⟨hsome, -⟩
    by_cases h8 : ∃ z < 8, ZoneActive payload z
    · exact .inl h8
    · exact .inr fun z _ hz => h8 (hsome.2 ⟨z, hz⟩)
  · intro hcond
    have hiff : (∃ z < 8, ZoneActive payload z) ↔ ∃ z, ZoneActive payload z := by
      constructor
      · rintro ⟨z, -, hz⟩
        exact ⟨z, hz⟩
      · rintro ⟨z, hz⟩
        rcases hcond with h8 | hlate
        · exact h8
        · exact ⟨z, Nat.lt_of_not_le fun h => hlate z h hz, hz⟩
    rw [hiff]
    exact ⟨Iff.rfl, Iff.rfl⟩

/-- What is found in a frame that was built. -/
theorem tlvFind_buildFrame (f : FrameFields) (tlvs : List Tlv)
    (hlen : (buildFrame f tlvs).length ≤ tlvMaxFrame) (type : UInt32) :
    tlvFind (buildFrame f tlvs) type = some ((lookup type tlvs).map Item.payload) := by
  rw [tlvFind_eq (buildFrame_isFrame hlen), buildFrame_chain hlen]

/-- A frame whose only zone is active. -/
theorem decided_zones_test : ∃ d, decided presenceFrame = some d ∧
    (((d.n = 1 ↔ ∃ z, ZoneActive [1, 1] z) ∧ (d.n = 0 ↔ ¬ ∃ z, ZoneActive [1, 1] z)) ↔
      (∃ z < 8, ZoneActive [1, 1] z) ∨ ∀ z, 8 ≤ z → ¬ ZoneActive [1, 1] z) := by
  have hfind : ∀ type, tlvFind presenceFrame type =
      some ((lookup type [⟨tlvEnhancedPresence, [1, 1]⟩]).map Item.payload) := by
    intro type
    rw [tlvFind_eq presenceFrame_isFrame, presenceFrame_chain]
  exact decided_zones_iff (hfind tlvTargetList) (hfind tlvEnhancedPresence) (by decide)

/-- Nine zones, the last of which is active. -/
def ninthFrame : List UInt8 := buildFrame testFields [⟨tlvEnhancedPresence, [9, 0, 0, 1]⟩]

/-- **Motion in the ninth zone** is read as an empty room. -/
theorem ninth_zone : ¬ ∀ (frame payload : List UInt8) (d : Decided), tlvFraming.IsFrame frame →
    tlvFind frame tlvTargetList = some none →
      tlvFind frame tlvEnhancedPresence = some (some payload) → 2 ≤ payload.length →
      decided frame = some d →
      (d.n = 1 ↔ ∃ z, ZoneActive payload z) ∧ (d.n = 0 ↔ ¬ ∃ z, ZoneActive payload z) := by
  intro hall
  have hfit : ninthFrame.length ≤ tlvMaxFrame := by decide
  have hlist : tlvFind ninthFrame tlvTargetList = some none :=
    tlvFind_buildFrame testFields _ hfit tlvTargetList
  have hzones : tlvFind ninthFrame tlvEnhancedPresence = some (some [9, 0, 0, 1]) :=
    tlvFind_buildFrame testFields _ hfit tlvEnhancedPresence
  obtain ⟨d, hd, -, -, hone⟩ := decided_zones hlist hzones (by decide)
  have hactive : ZoneActive [9, 0, 0, 1] 8 := ⟨by decide, by decide, by decide⟩
  have h1 := (hall _ _ d (buildFrame_isFrame hfit) hlist hzones (by decide) hd).1.2 ⟨8, hactive⟩
  obtain ⟨z, hz, hza⟩ := hone.1 h1
  have hstate := hza.state
  revert hstate
  interval_cases z <;> decide

/-! ## The largest count of a window -/

/-- The frames of a window that carry a target list. -/
def tracked (ds : List Decided) : List Decided := ds.filter Decided.tracker

theorem mem_tracked {ds : List Decided} {d : Decided} :
    d ∈ tracked ds ↔ d ∈ ds ∧ d.tracker = true := List.mem_filter

theorem maxN_tracked_le (ds : List Decided) : maxN (tracked ds) ≤ maxN ds :=
  maxN_le fun _ hd => le_maxN (mem_tracked.1 hd).1

/-- **Where the largest count comes from**: it is the tracker's unless the tracker counted
nobody in the whole window and some frame without it is occupied. -/
theorem maxN_tracked_iff {ds : List Decided} (hfloor : ∀ d ∈ ds, d.tracker = false → d.n ≤ 1) :
    maxN ds = maxN (tracked ds) ↔
      (∃ d ∈ ds, d.tracker = true ∧ 0 < d.n) ∨ ∀ d ∈ ds, d.tracker = false → d.n = 0 := by
  constructor
  · intro heq
    by_cases hcounted : ∃ d ∈ ds, d.tracker = true ∧ 0 < d.n
    · exact .inl hcounted
    · have hnobody : maxN (tracked ds) ≤ 0 := by
        refine maxN_le fun d hd => ?_
        obtain ⟨hmem, htrack⟩ := mem_tracked.1 hd
        by_contra hpos
        exact hcounted ⟨d, hmem, htrack, by omega⟩
      refine .inr fun d hd _ => ?_
      have hle := le_maxN hd
      omega
  · intro hcond
    refine le_antisymm (maxN_le fun d hd => ?_) (maxN_tracked_le ds)
    by_cases htrack : d.tracker = true
    · exact le_maxN (mem_tracked.2 ⟨hd, htrack⟩)
    · have hfalse : d.tracker = false := by simpa using htrack
      have hone := hfloor d hd hfalse
      rcases hcond with ⟨d', hd', htrack', hpos⟩ | hquiet
      · have hle := le_maxN (mem_tracked.2 ⟨hd', htrack'⟩)
        omega
      · have hzero := hquiet d hd hfalse
        omega

/-! ## The record of a window -/

variable {past : List SensorEvent} {now : ℤ} {status : Transfer} {air : Sen5x}

theorem windowFlush_headcount : (windowFlush (sensorsAfter air past) now status).1.headcount.toNat =
    maxN (sinceTake (radarPast past)) := by
  rw [windowFlush_record, sensorsAfter_acc]
  exact accAfter_maxCount (radarPast past)

theorem windowFlush_noTracker :
    (windowFlush (sensorsAfter air past) now status).1.Has sntlFlagNoTracker ↔
      ∀ d ∈ sinceTake (radarPast past), d.tracker = false := by
  rw [windowFlush_record, windowRecord_noTracker, sensorsAfter_acc]
  show (accAfter (radarPast past)).anyTracker = false ↔ _
  rw [accAfter_anyTracker]
  simp

/-- **When a count presented as a count came from the tracker.** Over every history: a record
whose flags do not say that there was no tracker has as its headcount the largest number of
targets decoded from a frame of its window, exactly when no frame of the window carries a target
list (so that the flag is set), or one of the lists has a target, or no frame without a list is
occupied. -/
theorem headcount_tracked_iff (air : Sen5x) (past : List SensorEvent) (now : ℤ)
    (status : Transfer) :
    (¬ (windowFlush (sensorsAfter air past) now status).1.Has sntlFlagNoTracker →
        (windowFlush (sensorsAfter air past) now status).1.headcount.toNat =
          maxN (tracked (sinceTake (radarPast past)))) ↔
      (∀ d ∈ sinceTake (radarPast past), d.tracker = false) ∨
        (∃ d ∈ sinceTake (radarPast past), d.tracker = true ∧ 0 < d.n) ∨
        ∀ d ∈ sinceTake (radarPast past), d.tracker = false → d.n = 0 := by
  have hfloor : ∀ d ∈ sinceTake (radarPast past), d.tracker = false → d.n ≤ 1 := by
    intro d hd ht
    obtain ⟨frame, hf⟩ := radarPast_decided hd
    exact decided_floor hf ht
  rw [windowFlush_noTracker, windowFlush_headcount, maxN_tracked_iff hfloor, imp_iff_not_or,
    not_not]

/-- The tracker has lost its target, and the zones report motion. -/
def lostTarget : List UInt8 := buildFrame testFields [⟨tlvTargetList, []⟩]

theorem lostTarget_decided : ∃ d, decided lostTarget = some d ∧ d.tracker = true ∧ d.n = 0 := by
  have hlist : tlvFind lostTarget tlvTargetList = some (some []) :=
    tlvFind_buildFrame testFields _ (by decide) tlvTargetList
  obtain ⟨ts, hts, hd⟩ := decided_list hlist
  have hnone : tlvTargets [] radarMaxTargets = some ⟨[], Nat.zero_le _⟩ := rfl
  obtain rfl := Option.some.inj (hts.symm.trans hnone)
  exact ⟨_, hd, rfl, rfl⟩

/-- **A presence frame is counted as a person**: the tracker had no target in the whole window,
and one frame of it had no target list. -/
theorem headcount_mixed : ¬ ∀ (air : Sen5x) (past : List SensorEvent) (now : ℤ)
    (status : Transfer),
    ¬ (windowFlush (sensorsAfter air past) now status).1.Has sntlFlagNoTracker →
      (windowFlush (sensorsAfter air past) now status).1.headcount.toNat =
        maxN (tracked (sinceTake (radarPast past))) := by
  intro hall
  obtain ⟨d, hd, htrack, hn⟩ := lostTarget_decided
  have hpast : sinceTake (radarPast [.frame presenceFrame 2000, .frame lostTarget 1000]) =
      [⟨1, false, by decide⟩, d] := by
    simp [radarPast, sinceTake, presenceFrame_decided, hd]
  have hflag : ¬ (windowFlush (sensorsAfter (sen5xStart true 0).2
      [.frame presenceFrame 2000, .frame lostTarget 1000]) 30000 quietAir).1.Has
        sntlFlagNoTracker := by
    rw [windowFlush_noTracker, hpast]
    intro hnone
    have hfalse := hnone d (by simp)
    rw [htrack] at hfalse
    exact Bool.noConfusion hfalse
  have heq := hall _ _ 30000 quietAir hflag
  rw [windowFlush_headcount, hpast] at heq
  simp [maxN, tracked, htrack, hn] at heq

end PresenceNode
