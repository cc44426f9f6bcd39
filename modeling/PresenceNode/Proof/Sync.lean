import PresenceNode.Proof.RoundTrip
import PresenceNode.Spec.Sync

/-!
# A sync neither skips nor repeats

* `sntlDumpRange_start`: a dump that answers with something starts at the cursor, or at the
  oldest seq held.
* `placedFrame_seqs`, `clientCursor_placed`: what the client makes of a frame.
* `cursor_moves`, `exchange_exact`: one exchange, whatever the two reads were.
* `dumpRun_sync`: a dump over the air that gets to its end is such an exchange.
* `sync_exact`: any run of appends and dumps.
-/

namespace PresenceNode

/-! ## One dump -/

theorem sntlDumpRange_start (firstSeq oldestSeq nextSeq : UInt32)
    (h : 0 < (sntlDumpRange firstSeq oldestSeq nextSeq).1.toNat) :
    (sntlDumpRange firstSeq oldestSeq nextSeq).2.toNat = max firstSeq.toNat oldestSeq.toNat := by
  unfold sntlDumpRange at h ⊢
  simp only [GT.gt, GE.ge] at h ⊢
  by_cases hn : nextSeq ≤ if oldestSeq < firstSeq then firstSeq else oldestSeq
  · rw [if_pos hn] at h
    exact absurd h (Nat.lt_irrefl 0)
  · rw [if_neg hn]
    exact toNat_larger firstSeq oldestSeq

/-- The seqs of a dump, as numbers. -/
theorem seqRange_toNat {start : UInt32} {count : UInt16}
    (h : start.toNat + count.toNat < 2 ^ 32) :
    (seqRange start (start + count.toUInt32)).map UInt32.toNat =
      List.range' start.toNat count.toNat := by
  rw [seqRange_eq h, List.map_map, List.range'_eq_map_range]
  apply List.map_congr_left
  intro i hi
  have hlt : i < count.toNat := List.mem_range.1 hi
  have hbound : i < 2 ^ 32 := by omega
  simp only [Function.comp_apply]
  rw [UInt32.toNat_add, UInt32.toNat_ofNat_of_lt' hbound, Nat.mod_eq_of_lt (by omega)]

theorem seqRange_length {start : UInt32} {count : UInt16}
    (h : start.toNat + count.toNat < 2 ^ 32) :
    (seqRange start (start + count.toUInt32)).length = count.toNat := by
  rw [seqRange_eq h, List.length_map, List.length_range]

theorem mem_seqRange {start : UInt32} {count : UInt16}
    (h : start.toNat + count.toNat < 2 ^ 32) {seq : UInt32} :
    seq ∈ seqRange start (start + count.toUInt32) ↔
      start.toNat ≤ seq.toNat ∧ seq.toNat < start.toNat + count.toNat := by
  rw [← List.mem_range'_1, ← seqRange_toNat h, List.mem_map]
  constructor
  · intro hs
    exact ⟨seq, hs, rfl⟩
  · rintro ⟨seq', hs, heq⟩
    rw [← UInt32.toNat_inj.1 heq]
    exact hs

section Frame

variable (deviceId : DeviceId) {count : UInt16} {start : UInt32}
  (place : Placing)

theorem placed_length (h : start.toNat + count.toNat < 2 ^ 32) :
    ((seqRange start (start + count.toUInt32)).map fun seq => (place seq).1).length =
      count.toNat := by
  rw [List.length_map, seqRange_length h]

/-- A frame reads back as the records placed in it. -/
theorem placedFrame_read (h : start.toNat + count.toNat < 2 ^ 32) :
    readFrame (placedFrame deviceId count start place) = some (deviceId.chars,
      (seqRange start (start + count.toUInt32)).map fun seq => (place seq).1) := by
  have hlen := placed_length place h
  have hcount := count.toNat_lt
  exact readFrame_wireFrame deviceId.length_le deviceId.nonzero (by omega)

theorem placedFrame_seqs (h : start.toNat + count.toNat < 2 ^ 32) (asked oldest next after : UInt32) :
    (Exchange.mk asked oldest next (placedFrame deviceId count start place) after).seqs =
      seqRange start (start + count.toUInt32) := by
  unfold Exchange.seqs
  simp only [placedFrame_read deviceId place h, List.map_map]
  have hseq : (SntlRecord.seq ∘ fun seq => (place seq).1) = id := by
    funext seq
    exact (place seq).2
  rw [hseq, List.map_id]

/-- **The cursor after a frame** of some records is behind the last of them. -/
theorem clientCursor_placed (h : start.toNat + count.toNat < 2 ^ 32) (cursor : UInt32) :
    (clientCursor cursor (placedFrame deviceId count start place)).toNat =
      if count.toNat = 0 then cursor.toNat else start.toNat + count.toNat := by
  have hlen := placed_length place h
  unfold clientCursor
  rw [placedFrame_read deviceId place h]
  rw [seqRange_eq h] at hlen ⊢
  by_cases h0 : count.toNat = 0
  · rw [if_pos h0, h0]
    rfl
  · obtain ⟨n, hn⟩ := Nat.exists_eq_succ_of_ne_zero h0
    rw [if_neg h0]
    rw [hn, List.range_succ_eq_map] at hlen ⊢
    simp only [List.map_cons, List.length_cons, Nat.succ_eq_add_one] at hlen ⊢
    have hfirst : (start + UInt32.ofNat 0).toNat = start.toNat := by
      rw [UInt32.toNat_add]
      exact Nat.mod_eq_of_lt start.toNat_lt
    have hcount : (UInt32.ofNat (n + 1)).toNat = n + 1 := by
      apply UInt32.toNat_ofNat_of_lt'
      show n + 1 < 2 ^ 32
      omega
    rw [(place _).2, hlen, UInt32.toNat_add, hfirst, hcount]
    omega

end Frame

/-- **Where the cursor goes**: it stays, or it moves from the start of the range past it. -/
theorem cursor_moves (deviceId : DeviceId) (cursor oldest next : UInt32) (place : Placing)
    {count : UInt16} {start : UInt32} (hr : sntlDumpRange cursor oldest next = (count, start))
    (hlt : start.toNat + count.toNat < 2 ^ 32) :
    (count.toNat = 0 ∧
        (clientCursor cursor (placedFrame deviceId count start place)).toNat = cursor.toNat) ∨
      (0 < count.toNat ∧ start.toNat = max cursor.toNat oldest.toNat ∧
        (clientCursor cursor (placedFrame deviceId count start place)).toNat =
          start.toNat + count.toNat) := by
  have hstart := sntlDumpRange_start cursor oldest next
  rw [hr] at hstart
  have hafter := clientCursor_placed deviceId place hlt cursor
  split_ifs at hafter with h0
  · exact Or.inl ⟨h0, hafter⟩
  · have hpos : 0 < count.toNat := Nat.pos_of_ne_zero h0
    exact Or.inr ⟨hpos, hstart hpos, hafter⟩

/-- **One exchange is exact**, whatever the two reads of the range were. -/
theorem exchange_exact (deviceId : DeviceId) (cursor oldest next : UInt32)
    (place : Placing) {count : UInt16}
    {start : UInt32} (hr : sntlDumpRange cursor oldest next = (count, start)) :
    (Exchange.mk cursor oldest next (placedFrame deviceId count start place)
      (clientCursor cursor (placedFrame deviceId count start place))).Exact := by
  obtain ⟨hle, hcount⟩ := sntlDumpRange_spec cursor oldest next
  rw [hr] at hle hcount
  simp only at hle hcount
  have hn := next.toNat_lt
  have hlt : start.toNat + count.toNat < 2 ^ 32 := by omega
  have hseqs := placedFrame_seqs deviceId place hlt cursor oldest next
    (clientCursor cursor (placedFrame deviceId count start place))
  have hafter := cursor_moves deviceId cursor oldest next place hr hlt
  refine ⟨?_, ?_, ?_, ?_, ?_, ?_⟩
  · -- a frame that reads back was accepted
    have hread := placedFrame_read deviceId place hlt
    unfold readFrame at hread
    split_ifs at hread with hok
    exact hok
  · refine ⟨start.toNat, ?_⟩
    rw [hseqs, seqRange_toNat hlt, seqRange_length hlt]
  · intro seq h1 h2 h3
    rw [UInt32.le_iff_toNat_le] at h1 h2
    rw [UInt32.lt_iff_toNat_lt] at h3
    simp only at h1 h2 h3
    rw [hseqs, mem_seqRange hlt, UInt32.le_iff_toNat_le]
    simp only
    omega
  · intro seq h1 h2
    rw [UInt32.le_iff_toNat_le] at h1
    rw [UInt32.lt_iff_toNat_lt] at h2
    simp only at h1 h2
    rw [hseqs, mem_seqRange hlt, UInt32.lt_iff_toNat_lt]
    simp only
    omega
  · intro seq hs
    rw [hseqs, mem_seqRange hlt] at hs
    rw [UInt32.le_iff_toNat_le, UInt32.lt_iff_toNat_lt]
    simp only
    omega
  · rw [UInt32.le_iff_toNat_le]
    simp only
    omega

/-! ## Runs -/

/-- The cursor has passed all that was sent. -/
theorem linked_passed {c cursor : UInt32} {xs : List Exchange} (hl : Linked c xs cursor)
    (hx : ∀ x ∈ xs, x.Exact) : ∀ x ∈ xs, x.after ≤ cursor := by
  induction xs generalizing cursor with
  | nil => intro x hmem; simp at hmem
  | cons y ys ih =>
    obtain ⟨rfl, hl⟩ := hl
    intro x hmem
    rcases List.mem_cons.1 hmem with rfl | hmem
    · exact UInt32.le_refl _
    · have hle := ih hl (fun z hz => hx z (List.mem_cons_of_mem _ hz)) x hmem
      exact UInt32.le_trans hle (hx y List.mem_cons_self).forward

/-- **An event** keeps a sync exact. -/
theorem sync_step {cap : UInt32} {deviceId : DeviceId} {c : UInt32} {s : Sync} (h : s.Exact c)
    (e : SyncEvent) : (s.step cap deviceId e).Exact c := by
  cases e with
  | main step => exact ⟨h.each, h.disjoint, h.linked⟩
  | dump sched nextFirst place =>
    rcases hw : World.readRange cap nextFirst ⟨s.node, sched, [], []⟩ with ⟨⟨oldest, next⟩, w⟩
    rcases hr : sntlDumpRange s.cursor oldest next with ⟨count, start⟩
    have hexact := exchange_exact deviceId s.cursor oldest next place hr
    simp only [Sync.step, hw, hr]
    refine ⟨?_, ?_, ⟨rfl, h.linked⟩⟩
    · intro x hx
      rcases List.mem_cons.1 hx with rfl | hx
      · exact hexact
      · exact h.each x hx
    · refine List.pairwise_cons.2 ⟨?_, h.disjoint⟩
      -- earlier frames lie below the cursor, this one at or above it
      intro y hy seq hseq hseq'
      have hlow := (hexact.within seq hseq).1
      have hhigh := ((h.each y hy).within seq hseq').2
      have hpass := linked_passed h.linked h.each y hy
      rw [UInt32.le_iff_toNat_le] at hlow hpass
      rw [UInt32.lt_iff_toNat_lt] at hhigh
      simp only at hlow
      omega

/-! ## The dump over the air -/

/-- What is read does not depend on the link. -/
theorem loadNext_link (node : Node SntlRecord) (sched : List (List (MainStep SntlRecord))) :
    ∃ next node' sched', ∀ link sent, (⟨node, sched, link, sent⟩ : World).loadNext =
      (next, ⟨node', sched', link, sent⟩) := by
  cases sched with
  | nil => exact ⟨storeNextSeq node.ram, node, [], fun _ _ => rfl⟩
  | cons steps sched =>
    exact ⟨storeNextSeq (node.run sntlLayout steps).ram, node.run sntlLayout steps, sched,
      fun _ _ => rfl⟩

theorem loadOldestOf_link (cap : UInt32) (node : Node SntlRecord)
    (sched : List (List (MainStep SntlRecord))) :
    ∃ oldest node' sched', ∀ link sent, (⟨node, sched, link, sent⟩ : World).loadOldestOf cap =
      (oldest, ⟨node', sched', link, sent⟩) := by
  obtain ⟨next, node₁, sched₁, h₁⟩ := loadNext_link node sched
  obtain ⟨next', node₂, sched₂, h₂⟩ := loadNext_link node₁ sched₁
  unfold World.loadOldestOf
  by_cases hfull : next > cap
  · refine ⟨if node₂.ram.floorSeq > next' - cap then node₂.ram.floorSeq else next' - cap,
      node₂, sched₂, fun link sent => ?_⟩
    simp only [h₁, if_pos hfull, h₂]
  · refine ⟨if node₁.ram.floorSeq > 0 then node₁.ram.floorSeq else 0, node₁, sched₁,
      fun link sent => ?_⟩
    simp only [h₁, if_neg hfull]

theorem readRange_link (cap : UInt32) (nextFirst : Bool) (node : Node SntlRecord)
    (sched : List (List (MainStep SntlRecord))) :
    ∃ range node' sched', ∀ link sent, (⟨node, sched, link, sent⟩ : World).readRange cap nextFirst =
      (range, ⟨node', sched', link, sent⟩) := by
  unfold World.readRange
  cases nextFirst with
  | true =>
    obtain ⟨next, node₁, sched₁, h₁⟩ := loadNext_link node sched
    obtain ⟨oldest, node₂, sched₂, h₂⟩ := loadOldestOf_link cap node₁ sched₁
    refine ⟨(oldest, next), node₂, sched₂, fun link sent => ?_⟩
    simp only [if_true, h₁, h₂]
  | false =>
    obtain ⟨oldest, node₁, sched₁, h₁⟩ := loadOldestOf_link cap node sched
    obtain ⟨next, node₂, sched₂, h₂⟩ := loadNext_link node₁ sched₁
    refine ⟨(oldest, next), node₂, sched₂, fun link sent => ?_⟩
    simp only [Bool.false_eq_true, if_false, h₁, h₂]

/-- The range of a dump, over a ring of the store's capacity. -/
theorem dumpRange_eq (nextFirst : Bool) (firstSeq : UInt32) (w : World) :
    dumpRange nextFirst firstSeq w =
      (sntlDumpRange firstSeq (w.readRange (.ofNat storeCapacity) nextFirst).1.1
        (w.readRange (.ofNat storeCapacity) nextFirst).1.2,
        (w.readRange (.ofNat storeCapacity) nextFirst).2) := by
  cases nextFirst with
  | true => rfl
  | false => rfl

/-- The records of a frame, by seq; placeholders elsewhere. -/
def placed (start : UInt32) (recs : List SntlRecord) : Placing := fun seq =>
  match recs[(seq - start).toNat]? with
  | some rec => if h : rec.seq = seq then ⟨rec, h⟩ else ⟨faultRecord seq, rfl⟩
  | none => ⟨faultRecord seq, rfl⟩

theorem placed_records {start : UInt32} {count : UInt16} {recs : List SntlRecord}
    (hlt : start.toNat + count.toNat < 2 ^ 32) (hlen : recs.length = count.toNat)
    (hseq : ∀ (i : ℕ) (hi : i < recs.length), recs[i].seq = start + .ofNat i) :
    ((seqRange start (start + count.toUInt32)).map fun seq => (placed start recs seq).1) = recs := by
  rw [seqRange_eq hlt, List.map_map]
  apply List.ext_getElem
  · rw [List.length_map, List.length_range, hlen]
  · intro i h1 h2
    have hi : (start + .ofNat i - start : UInt32).toNat = i := by
      have hbound : (UInt32.ofNat i).toNat = i := by
        apply UInt32.toNat_ofNat_of_lt'
        show i < 2 ^ 32
        omega
      rw [UInt32.add_comm, UInt32.add_sub_cancel, hbound]
    simp only [List.getElem_map, List.getElem_range, Function.comp_apply]
    unfold placed
    rw [hi, List.getElem?_eq_getElem h2]
    simp only
    rw [dif_pos (hseq i h2)]

theorem sync_main (cap : UInt32) (deviceId : DeviceId) (s : Sync)
    (steps : List (MainStep SntlRecord)) :
    (syncMachine cap deviceId).run s (steps.map .main) =
      { s with node := s.node.run sntlLayout steps } := by
  induction steps generalizing s with
  | nil => rfl
  | cons step steps ih =>
    rw [List.map_cons, Machine.run_cons, ih]
    rfl

/-- **A dump over the air that gets to its end is an exchange**, and the appends that fall
into it are steps of the main loop. -/
theorem dumpRun_sync (deviceId : DeviceId) (s : Sync) (mtu : UInt16) (nextFirst : Bool)
    (sched : List (List (MainStep SntlRecord))) (link : List Attempt) {w : World}
    (hrun : dumpRun deviceId.chars mtu nextFirst s.cursor ⟨s.node, sched, link, []⟩ = (w, .done)) :
    IsExchange deviceId s sched nextFirst w.node w.sent.flatten := by
  obtain ⟨⟨oldest, next⟩, node, sched', hread⟩ :=
    readRange_link (.ofNat storeCapacity) nextFirst s.node sched
  rcases hr : sntlDumpRange s.cursor oldest next with ⟨count, start⟩
  have hrange : dumpRange nextFirst s.cursor ⟨s.node, sched, link, []⟩ =
      ((count, start), ⟨node, sched', link, []⟩) := by
    rw [dumpRange_eq, hread, hr]
  have hknown : Known s.node.flash s.node := fun _ _ hs _ => Or.inl hs
  obtain ⟨recs, hdump⟩ := dumpRun_isDump (w := ⟨s.node, sched, link, []⟩) hknown rfl
    deviceId.chars mtu nextFirst s.cursor
  -- where the main loop is at the end
  have hran := dumpRest_ran (dumpChunk_le mtu) (seqRange start (start + count.toUInt32))
    (sntlCrc16 0xFFFF (sntlEncodeHeader count deviceId.chars))
    (sntlEncodeHeader count deviceId.chars) ⟨node, sched', link, []⟩
  rw [← dumpRun_eq hrange, hrun] at hran
  rw [hrun, hrange] at hdump
  obtain ⟨steps, hsteps⟩ := hran
  have hframe : placedFrame deviceId count start (placed start recs) = w.sent.flatten := by
    rw [hdump.whole rfl]
    unfold placedFrame
    rw [placed_records hdump.range_lt hdump.length fun i hi => (hdump.genuine i hi).1]
  refine ⟨placed start recs, steps,
    ⟨s.cursor, oldest, next, w.sent.flatten, clientCursor s.cursor w.sent.flatten⟩, ?_, rfl⟩
  have hstep : (syncMachine (.ofNat storeCapacity) deviceId).step s
      (.dump sched nextFirst (placed start recs)) =
        ⟨node, clientCursor s.cursor w.sent.flatten, ⟨s.cursor, oldest, next, w.sent.flatten,
          clientCursor s.cursor w.sent.flatten⟩ :: s.exchanges⟩ := by
    simp only [syncMachine, Sync.step, hread, hr, hframe]
  have hnode : w.node = node.run sntlLayout steps := hsteps
  rw [Machine.run_cons, sync_main, hstep, hnode]

/-! ## The result -/

/-- **A sync neither skips nor repeats**, over every run of appends and complete dumps, for
every ring size and every cursor to begin with; and a dump over the air that gets to its end
is one of these. -/
theorem sync_exact (deviceId : DeviceId) (node : Node SntlRecord) (c : UInt32) :
    (∀ (cap : UInt32) (evs : List SyncEvent),
      ((syncMachine cap deviceId).run ⟨node, c, []⟩ evs).Exact c) ∧
    ∀ (s : Sync) (mtu : UInt16) (nextFirst : Bool) (sched : List (List (MainStep SntlRecord)))
      (link : List Attempt) (w : World),
      dumpRun deviceId.chars mtu nextFirst s.cursor ⟨s.node, sched, link, []⟩ = (w, .done) →
      IsExchange deviceId s sched nextFirst w.node w.sent.flatten := by
  refine ⟨?_, ?_⟩
  · intro cap evs
    have hstart : (⟨node, c, []⟩ : Sync).Exact c :=
      ⟨by simp, List.Pairwise.nil, rfl⟩
    have hstep : ∀ (s : Sync) (e : SyncEvent), s.Exact c →
        ((syncMachine cap deviceId).step s e).Exact c := fun s e h => sync_step h e
    exact Machine.run_keeps hstep hstart evs
  · intro s mtu nextFirst sched link w hrun
    exact dumpRun_sync deviceId s mtu nextFirst sched link hrun

end PresenceNode
