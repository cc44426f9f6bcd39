import PresenceNode.Proof.Ring
import PresenceNode.Spec.Clock

/-!
# Timestamps follow the seqs

* `Chron`: the records in the ring below a counter are in time order, up to a bound.
* `chron_push`, `chron_foreign`: a record written at the counter moves the ring on; one
  written outside it leaves it in order.
* `storeMigrate_wipes`: a format change that is begun leaves no records.
* `step_timed`, `ordered_of_timed`: the rings of the counters in RAM and of those in flash
  both stay in order.
* `clock_ordered`: timestamps follow the seqs as long as no append laps the saved counters.
* `clock_lapped`: after 2^32 - 1 refused writes of the counters they do not.
-/

namespace PresenceNode

variable {ρ : Type} {L : Layout ρ}

/-! ## A ring in time order -/

/-- A record that stands in the ring below a counter, under its own seq. -/
structure Shown (L : Layout ρ) (fl : Flash) (m : Meta) (s : UInt32) (r : ρ) : Prop where
  ring : m.InRing s
  held : recAt L fl s = some r
  seq : L.seq r = s

/-- **A ring in time order**, up to `bound` seconds. -/
structure Chron (L : Layout ρ) (fl : Flash) (m : Meta) (bound : ℕ) : Prop where
  le : ∀ s r, Shown L fl m s r → (L.ts r).toNat ≤ bound
  sorted : ∀ a b ra rb, Shown L fl m a ra → Shown L fl m b rb → a < b →
    (L.ts ra).toNat ≤ (L.ts rb).toNat

theorem chron_blank {fl : Flash} (h : Blank L fl) (m : Meta) (bound : ℕ) : Chron L fl m bound := by
  have hnone : ∀ s r, ¬ Shown L fl m s r := by
    intro s r hs
    have hheld := hs.held
    rw [h s] at hheld
    simp at hheld
  exact ⟨fun s r hs => absurd hs (hnone s r), fun a b ra rb ha => absurd ha (hnone a ra)⟩

theorem chron_le {fl : Flash} {m : Meta} {bound bound' : ℕ} (h : Chron L fl m bound)
    (hle : bound ≤ bound') : Chron L fl m bound' :=
  ⟨fun s r hs => (h.le s r hs).trans hle, h.sorted⟩

/-- Saving counters moves no record. -/
theorem chron_putMeta {fl : Flash} {m m' : Meta} {bound : ℕ} (h : Chron L fl m bound) :
    Chron L (putMeta fl m') m bound := by
  have hshown : ∀ s r, Shown L (putMeta fl m') m s r → Shown L fl m s r := by
    intro s r hs
    refine ⟨hs.ring, ?_, hs.seq⟩
    rw [← recAt_putMeta fl m' s]
    exact hs.held
  exact ⟨fun s r hs => h.le s r (hshown s r hs),
    fun a b ra rb ha hb => h.sorted a b ra rb (hshown a ra ha) (hshown b rb hb)⟩

/-- **A record written outside the ring** may spoil a slot of it, but shows nowhere. -/
theorem chron_foreign {fl : Flash} {m : Meta} {bound : ℕ} {r : ρ} (h : Chron L fl m bound)
    (hout : ¬ m.InRing (L.seq r)) : Chron L (putRec L fl r) m bound := by
  have hshown : ∀ s r', Shown L (putRec L fl r) m s r' → Shown L fl m s r' := by
    intro s r' hs
    obtain ⟨hring, hheld, hseq⟩ := hs
    by_cases hslot : recId s = recId (L.seq r)
    · rw [recAt_putRec_self fl r hslot, Option.some.injEq] at hheld
      rw [← hheld] at hseq
      rw [hseq] at hout
      exact absurd hring hout
    · rw [recAt_putRec_ne fl r hslot] at hheld
      exact ⟨hring, hheld, hseq⟩
  exact ⟨fun s r' hs => h.le s r' (hshown s r' hs),
    fun a b ra rb ha hb => h.sorted a b ra rb (hshown a ra ha) (hshown b rb hb)⟩

/-- What shows in the ring once a record is written at the counter: that record, or one that
showed before. -/
theorem shown_push {fl : Flash} {m m' : Meta} {r r' : ρ} {s : UInt32}
    (hm : m'.nextSeq = m.nextSeq + 1) (hseq : L.seq r = m.nextSeq)
    (hs : Shown L (putRec L fl r) m' s r') :
    (s = m.nextSeq ∧ r' = r) ∨ (s < m.nextSeq ∧ Shown L fl m s r') := by
  obtain ⟨⟨hlt, hnear⟩, hheld, hs'⟩ := hs
  have hn := m.nextSeq.toNat_lt
  rw [hm, UInt32.lt_iff_toNat_lt, UInt32.toNat_add, UInt32.toNat_one] at hlt
  rw [hm, UInt32.toNat_add, UInt32.toNat_one] at hnear
  by_cases heq : s = m.nextSeq
  · refine Or.inl ⟨heq, ?_⟩
    rw [heq, recAt_putRec_self fl r (by rw [hseq]), Option.some.injEq] at hheld
    exact hheld.symm
  · have hne : s.toNat ≠ m.nextSeq.toNat := fun h => heq (UInt32.toNat_inj.1 h)
    -- less than a round below the counter, so in another slot
    have hbelow : s.toNat < m.nextSeq.toNat := by omega
    have hslot : recId s ≠ recId (L.seq r) := by
      rw [hseq]
      exact recId_ne hbelow (by omega)
    rw [recAt_putRec_ne fl r hslot] at hheld
    rw [← UInt32.lt_iff_toNat_lt] at hbelow
    exact Or.inr ⟨hbelow, ⟨hbelow, by omega⟩, hheld, hs'⟩

/-- **A record written at the counter**, no earlier than the others, keeps the order. -/
theorem chron_push {fl : Flash} {m m' : Meta} {bound bound' : ℕ} {r : ρ} (h : Chron L fl m bound)
    (hm : m'.nextSeq = m.nextSeq + 1) (hseq : L.seq r = m.nextSeq) (hts : (L.ts r).toNat = bound')
    (hle : bound ≤ bound') : Chron L (putRec L fl r) m' bound' := by
  refine ⟨?_, ?_⟩
  · intro s r' hs
    rcases shown_push hm hseq hs with ⟨-, rfl⟩ | ⟨-, hold⟩
    · exact hts.le
    · exact (h.le s r' hold).trans hle
  · intro a b ra rb ha hb hab
    rcases shown_push hm hseq ha with ⟨rfl, rfl⟩ | ⟨halt, haold⟩
    · -- nothing stands above the counter
      rcases shown_push hm hseq hb with ⟨rfl, -⟩ | ⟨hblt, -⟩
      · exact absurd hab (UInt32.lt_irrefl _)
      · rw [UInt32.lt_iff_toNat_lt] at hab hblt
        omega
    · rcases shown_push hm hseq hb with ⟨-, rfl⟩ | ⟨-, hbold⟩
      · rw [hts]
        exact (h.le a ra haold).trans hle
      · exact h.sorted a b ra rb haold hbold hab

/-! ## Format changes -/

/-- **A format change that is begun leaves no records**: unless the erase is refused, or cut
before it took effect. -/
theorem storeMigrate_wipes (ram : Ram) (fl : Flash) {fs : List Fate}
    (hfs : ∀ e rest, fs ≠ .fail e :: rest) :
    (storeMigrate L ram).run fl fs = .cut fl ∨ Blank L ((storeMigrate L ram).run fl fs).state := by
  -- once erased, it does not matter what was there
  have hempty : Holds L (fun _ => False) (fun _ => none) := fun _ _ hs => by simp [recAt] at hs
  have hkeep := fun fs' => storeMigrate_keeps (L := L) ram (fun _ => none) fs' hempty
  have hblank : ∀ fl', Holds L (fun _ => False) fl' → Blank L fl' := by
    intro fl' h s
    cases hr : recAt L fl' s with
    | none => rfl
    | some r => exact (h s r hr).elim
  cases fs with
  | nil => exact Or.inr (hblank _ (hkeep []))
  | cons f rest =>
    cases f with
    | ok => exact Or.inr (hblank _ (hkeep (.ok :: rest)))
    | fail e => exact absurd rfl (hfs e rest)
    | cut done =>
      cases done with
      | true => exact Or.inr (hblank _ (hkeep (.cut true :: rest)))
      | false => exact Or.inl rfl

/-! ## The clock -/

/-- **A store that keeps time**: the ring of the saved counters is in order up to `base_sec`,
and that of the counters in RAM up to now. -/
structure Timed (L : Layout ρ) (d : Clocked ρ) : Prop where
  saved : formatOf d.life.flash = L.format →
    Chron L d.life.flash (metaOf d.life.flash) (metaOf d.life.flash).baseSec.toNat
  live : ∀ ram ∈ d.life.ram, ram.mounted = true →
    Chron L d.life.flash ram.counters (ram.bootOffset.toNat + d.up / 1000)

/-- The timestamp of an append, while the seconds fit. -/
theorem ts_stamped {ram : Ram} {up : ℕ} (h : ram.bootOffset.toNat + up / 1000 < 2 ^ 32)
    (rec : ρ) :
    (L.ts (stamped L ram up rec)).toNat = ram.bootOffset.toNat + up / 1000 := by
  have hup : (UInt32.ofNat (up / 1000)).toNat = up / 1000 := by
    apply UInt32.toNat_ofNat_of_lt'
    show up / 1000 < 2 ^ 32
    omega
  unfold stamped storeNow
  rw [L.ts_stamp, UInt32.toNat_add, hup, Nat.mod_eq_of_lt h]

/-- **Timestamps follow the seqs** in a store that keeps time. -/
theorem ordered_of_timed {d : Clocked ρ} (h : Timed L d) : d.Ordered L := by
  have hshown : ∀ ram ∈ d.life.ram, ∀ s r, storeGet L ram d.life.flash s = .ok r →
      ram.mounted = true ∧ Shown L d.life.flash ram.counters s r := by
    intro ram hram s r hg
    obtain ⟨hlt, hold, hm, hheld, hseq⟩ := storeGet_ok_iff.1 hg
    rw [UInt32.le_iff_toNat_le, storeOldestSeq_toNat] at hold
    exact ⟨hm, ⟨hlt, by omega⟩, hheld, hseq⟩
  refine ⟨?_, ?_⟩
  · intro ram hram a b ra rb ha hb hab
    obtain ⟨hm, hsa⟩ := hshown ram hram a ra ha
    obtain ⟨-, hsb⟩ := hshown ram hram b rb hb
    exact UInt32.le_iff_toNat_le.2 ((h.live ram hram hm).sorted a b ra rb hsa hsb hab)
  · intro ram hram rec out up ram' fl fates fates' hup hsec hrun s r hg
    obtain ⟨hm, hs⟩ := hshown ram hram s r hg
    obtain ⟨rfl, -⟩ := storeAppend_ret hrun
    have hle := (h.live ram hram hm).le s r hs
    rw [UInt32.le_iff_toNat_le, ts_stamped hsec]
    omega

/-- A store without power keeps time if its flash does. -/
theorem timed_off {d : Clocked ρ} (h : Timed L d) (up : ℕ) :
    Timed L ⟨{ d.life with ram := none }, up⟩ :=
  ⟨h.saved, fun ram hram => by simp at hram⟩

/-- **A boot** goes on from the saved counters, or from a store without records. -/
theorem boot_timed {d : Clocked ρ} (h : Timed L d) (fates : List Fate)
    (hg : formatOf d.life.flash = L.format ∨ clearRefused fates = false) :
    Timed L (d.step L (.boot fates)) := by
  simp only [Clocked.step, Life.step]
  rcases storeInit_run (L := L) d.life.flash fates with ⟨rc, fs, -, hrun⟩ | hrun | ⟨fs, hfs, hrun⟩
  · -- it fails early, and nothing is mounted
    rw [hrun]
    refine ⟨h.saved, ?_⟩
    intro ram hram hm
    simp only [Option.mem_def, Option.some.injEq] at hram
    rw [← hram] at hm
    exact Bool.noConfusion hm
  · rw [hrun]
    exact timed_off h 0
  by_cases hf : formatOf d.life.flash = L.format
  · rw [if_neg (not_not.2 hf)] at hrun
    rw [hrun]
    refine ⟨h.saved, ?_⟩
    intro ram hram _
    simp only [Option.mem_def, Option.some.injEq] at hram
    rw [← hram]
    exact chron_le (h.saved hf) (Nat.le_add_right _ _)
  · rw [if_pos hf] at hrun
    have hclear : ∀ e rest, fs ≠ .fail e :: rest := by
      rintro e rest rfl
      rcases hfs with rfl | hnil
      · exact absurd (hg.resolve_left hf) (by simp [clearRefused])
      · simp at hnil
    rcases storeMigrate_wipes (L := L) { Ram.zero with mounted := true, counters := metaOf d.life.flash }
      d.life.flash hclear with hcut | hblank
    · rw [hrun, hcut]
      exact timed_off h 0
    · rw [← hrun] at hblank
      cases hr : (storeInit L).run d.life.flash fates with
      | ret a fl fs' =>
        rw [hr] at hblank
        exact ⟨fun _ => chron_blank hblank _ _, fun _ _ _ => chron_blank hblank _ _⟩
      | cut fl =>
        rw [hr] at hblank
        exact ⟨fun _ => chron_blank hblank _ _, fun _ _ _ => chron_blank hblank _ _⟩

/-- **The record of an append is written**: the ring in RAM moves on; the saved one stays in
order, and so does the one that is saved next. -/
theorem append_chron {d : Clocked ρ} (h : Timed L d) {ram : Ram} (hram : d.life.ram = some ram)
    (hm : ram.mounted = true) {up : ℕ} (rec : ρ) (hup : d.up ≤ up)
    (hsec : ram.bootOffset.toNat + up / 1000 < 2 ^ 32)
    (hlap : ¬ (metaOf d.life.flash).InRing ram.counters.nextSeq) :
    Chron L (putRec L d.life.flash (stamped L ram up rec)) (ram.bump up).counters
        (ram.bootOffset.toNat + up / 1000) ∧
      (formatOf d.life.flash = L.format →
        Chron L (putRec L d.life.flash (stamped L ram up rec)) (metaOf d.life.flash)
          (metaOf d.life.flash).baseSec.toNat) ∧
      (ram.bump up).counters.baseSec.toNat = ram.bootOffset.toNat + up / 1000 := by
  have hts := ts_stamped (L := L) hsec rec
  have hlive := h.live ram hram hm
  refine ⟨chron_push hlive rfl (seq_stamped ram up rec) hts ?_, ?_, ?_⟩
  · have hdiv : d.up / 1000 ≤ up / 1000 := Nat.div_le_div_right hup
    omega
  · intro hf
    apply chron_foreign (h.saved hf)
    rw [seq_stamped]
    exact hlap
  · rw [← hts]
    unfold stamped
    rw [L.ts_stamp]
    rfl

/-- **An append**, whatever becomes of its two writes. -/
theorem append_timed {d : Clocked ρ} (h : Timed L d) (rec : ρ) (up : ℕ) (fates : List Fate)
    (hg : d.InTime L (.append rec up fates)) (hu : d.Unlapped (.append rec up fates)) :
    Timed L (d.step L (.append rec up fates)) := by
  simp only [Clocked.step, Life.step]
  cases hram : d.life.ram with
  | none =>
    refine ⟨h.saved, ?_⟩
    intro ram hmem
    simp only [Option.mem_def] at hmem
    rw [hram] at hmem
    simp at hmem
  | some ram =>
    obtain ⟨hup, hsec⟩ := hg ram hram
    have hwrite := fun hm => append_chron h hram hm rec hup hsec (hu ram hram hm)
    have hdiv : d.up / 1000 ≤ up / 1000 := Nat.div_le_div_right hup
    simp only
    cases hrun : (storeAppend L ram rec up).run d.life.flash fates with
    | ret a fl fs =>
      obtain ⟨rc, ram', out⟩ := a
      obtain ⟨rfl, ⟨-, rfl, rfl⟩ | ⟨hm, rfl, ⟨-, rfl⟩ | ⟨-, rfl⟩⟩⟩ := storeAppend_ret hrun
      · -- nothing was written
        refine ⟨h.saved, ?_⟩
        intro ram₁ hmem hm
        simp only [Option.mem_def, Option.some.injEq] at hmem
        rw [← hmem] at hm ⊢
        exact chron_le (h.live ram' hram hm) (by simp only; omega)
      · obtain ⟨hlive, hsaved, -⟩ := hwrite hm
        refine ⟨?_, ?_⟩
        · simp only [formatOf_putRec, metaOf_putRec]
          exact hsaved
        · intro ram₁ hmem _
          simp only [Option.mem_def, Option.some.injEq] at hmem
          rw [← hmem]
          exact hlive
      · obtain ⟨hlive, -, hbase⟩ := hwrite hm
        refine ⟨?_, ?_⟩
        · intro _
          simp only [metaOf_putMeta]
          rw [hbase]
          exact chron_putMeta hlive
        · intro ram₁ hmem _
          simp only [Option.mem_def, Option.some.injEq] at hmem
          rw [← hmem]
          exact chron_putMeta hlive
    | cut fl =>
      have hm : ram.mounted = true := storeAppend_cut_mounted hrun
      obtain ⟨hlive, hsaved, hbase⟩ := hwrite hm
      refine ⟨?_, fun ram₁ hmem => by simp at hmem⟩
      rcases storeAppend_cut hrun with rfl | rfl | rfl
      · exact h.saved
      · simp only [formatOf_putRec, metaOf_putRec]
        exact hsaved
      · intro _
        simp only [metaOf_putMeta]
        rw [hbase]
        exact chron_putMeta hlive

/-- A read changes neither flash nor static variables. -/
theorem answer_state (l : Life ρ) (ram : Ram) (seq : UInt32) :
    (l.answer L ram seq).flash = l.flash ∧ (l.answer L ram seq).ram = l.ram := by
  unfold Life.answer
  simp only
  split <;> split <;> exact ⟨rfl, rfl⟩

theorem get_timed {d : Clocked ρ} (h : Timed L d) (seq : UInt32) :
    Timed L (d.step L (.get seq)) := by
  simp only [Clocked.step, Life.step]
  cases hram : d.life.ram with
  | none => exact h
  | some ram =>
    obtain ⟨hfl, hr⟩ := answer_state (L := L) d.life ram seq
    refine ⟨?_, ?_⟩
    · simp only [hfl]
      exact h.saved
    · simp only [hfl, hr]
      exact h.live

/-- **An event** keeps the time. -/
theorem step_timed {d : Clocked ρ} (h : Timed L d) (e : Event ρ) (hg : d.InTime L e)
    (hu : d.Unlapped e) : Timed L (d.step L e) := by
  cases e with
  | boot fates => exact boot_timed h fates hg
  | append rec up fates => exact append_timed h rec up fates hg hu
  | get seq => exact get_timed h seq
  | off => exact timed_off h d.up

/-- **Timestamps follow the seqs** in every run from a partition with another format or none,
as long as the clock runs on and no append laps the saved counters. -/
theorem clock_ordered {fl : Flash} (hf : formatOf fl ≠ L.format) {evs : List (Event ρ)}
    (hg : (clockMachine L).Guarded (fun d e => d.InTime L e ∧ d.Unlapped e) (.start fl) evs) :
    ((clockMachine L).run (.start fl) evs).Ordered L := by
  have hstart : Timed L (.start fl) :=
    ⟨fun h => absurd h hf, fun ram hram => by simp [Clocked.start, Life.start] at hram⟩
  apply ordered_of_timed
  refine Machine.run_invariant ?_ hstart hg
  intro d e h hge
  exact step_timed h e hge.1 hge.2

/-- Two boots with an append each, a cut one between them and a refused one at the end. -/
def twoBoots : List (Event SntlRecord) :=
  [.boot [], .append record₀ 30000 [], .append record₀ 60000 [.ok, .cut false], .boot [],
    .append record₀ 30000 [], .append record₀ 60000 [.ok, .fail 0], .get 1]

theorem clock_ordered_twoBoots :
    ((clockMachine sntlLayout).run (.start fun _ => none) twoBoots).Ordered sntlLayout :=
  clock_ordered (format_ne_zero sntlLayout) (by decide)

/-! ## An append laps the saved counters -/

/-- An append at one second whose counters are refused. -/
abbrev refusedAppend : Event SntlRecord := .append record₀ 1000 [.ok, .fail 0]

/-- **After a first append and `k` refused ones**: RAM counts them, flash does not. -/
structure Refusing (k : ℕ) (d : Clocked SntlRecord) : Prop where
  up : d.up ≤ 1000
  ram : d.life.ram = some ⟨true, ⟨1 + .ofNat k, if k = 0 then 0 else 1⟩, 0, 0⟩
  counters : metaOf d.life.flash = ⟨1, 0⟩
  format : formatOf d.life.flash = sntlLayout.format
  floor : floorOf d.life.flash = 0

/-- What a refused append leaves. -/
theorem refusedAppend_run (fl : Flash) (m : Meta) :
    (storeAppend sntlLayout ⟨true, m, 0, 0⟩ record₀ 1000).run fl [.ok, .fail 0] =
      .ret (-1, Ram.bump ⟨true, m, 0, 0⟩ 1000, stamped sntlLayout ⟨true, m, 0, 0⟩ 1000 record₀)
        (putRec sntlLayout fl (stamped sntlLayout ⟨true, m, 0, 0⟩ 1000 record₀)) [] := rfl

theorem refusing_step {k : ℕ} {d : Clocked SntlRecord} (h : Refusing k d) :
    d.InTime sntlLayout refusedAppend ∧ Refusing (k + 1) (d.step sntlLayout refusedAppend) ∧
      (d.step sntlLayout refusedAppend).life.flash = putRec sntlLayout d.life.flash
        { record₀ with seq := 1 + .ofNat k, ts := 1 } := by
  obtain ⟨hup, hram, hcounters, hformat, hfloor⟩ := h
  have hstep : d.step sntlLayout refusedAppend =
      ⟨{ d.life with
        flash := putRec sntlLayout d.life.flash { record₀ with seq := 1 + .ofNat k, ts := 1 }
        ram := some ⟨true, ⟨1 + .ofNat k + 1, 1⟩, 0, 0⟩ }, 1000⟩ := by
    simp only [Clocked.step, Life.step, hram]
    rw [refusedAppend_run]
    rfl
  refine ⟨?_, ?_, ?_⟩
  · intro ram hmem
    simp only [Option.mem_def] at hmem
    rw [hram, Option.some.injEq] at hmem
    rw [← hmem]
    exact ⟨hup, (by decide : (0 : UInt32).toNat + 1000 / 1000 < 2 ^ 32)⟩
  · rw [hstep]
    refine ⟨le_rfl, ?_, ?_, ?_, ?_⟩
    · simp only
      rw [if_neg (Nat.succ_ne_zero k), UInt32.ofNat_add, ← UInt32.add_assoc]
      rfl
    · rw [metaOf_putRec]
      exact hcounters
    · rw [formatOf_putRec]
      exact hformat
    · rw [floorOf_putRec]
      exact hfloor
  · rw [hstep]

theorem refusing_run (n : ℕ) {k : ℕ} {d : Clocked SntlRecord} (h : Refusing k d) :
    (clockMachine sntlLayout).Guarded (fun d e => d.InTime sntlLayout e) d
        (List.replicate n refusedAppend) ∧
      Refusing (k + n) ((clockMachine sntlLayout).run d (List.replicate n refusedAppend)) := by
  induction n generalizing k d with
  | zero => exact ⟨trivial, h⟩
  | succ n ih =>
    obtain ⟨hin, hnext, -⟩ := refusing_step h
    obtain ⟨hg, hrun⟩ := ih hnext
    rw [List.replicate_succ, Machine.run_cons]
    refine ⟨⟨hin, hg⟩, ?_⟩
    rw [Nat.add_comm n 1, ← Nat.add_assoc]
    exact hrun

/-- The flash after the first append of all. -/
def flashFirst : Flash :=
  putMeta (putRec sntlLayout flash₀ { record₀ with seq := 0, ts := 0 }) ⟨1, 0⟩

/-- The first boot and the first append. -/
def firstAppend : List (Event SntlRecord) := [.boot [.ok, .ok, .ok], .append record₀ 0 []]

theorem firstAppend_run :
    ((clockMachine sntlLayout).run (.start fun _ => none) firstAppend) =
      ⟨⟨flashFirst, some ⟨true, ⟨1, 0⟩, 0, 0⟩, [], []⟩, 0⟩ := by
  have hboot : (storeInit sntlLayout).run (fun _ => none) [.ok, .ok, .ok] =
      .ret (0, booted flash₀) flash₀ [] := by
    rw [storeInit_mounted, if_pos (format_ne_zero _)]
    rfl
  have hram : booted flash₀ = ⟨true, ⟨0, 0⟩, 0, 0⟩ := by decide
  have happend : (storeAppend sntlLayout ⟨true, ⟨0, 0⟩, 0, 0⟩ record₀ 0).run flash₀ [] =
      .ret (0, ⟨true, ⟨1, 0⟩, 0, 0⟩, { record₀ with seq := 0, ts := 0 }) flashFirst [] := rfl
  simp only [firstAppend, Machine.run_cons, Machine.run_nil, clockMachine, Clocked.step, Life.step,
    Clocked.start, Life.start, hboot, hram, happend]

theorem firstAppend_refusing :
    Refusing 0 ((clockMachine sntlLayout).run (.start fun _ => none) firstAppend) := by
  rw [firstAppend_run]
  refine ⟨Nat.zero_le _, rfl, metaOf_putMeta _ _, ?_, ?_⟩
  · unfold flashFirst
    rw [formatOf_putMeta, formatOf_putRec, formatOf_migrated]
  · unfold flashFirst
    rw [floorOf_putMeta, floorOf_putRec, floorOf_migrated]

/-- A first append, `n` refused ones, one more, and a restart. -/
def lapping (n : ℕ) : List (Event SntlRecord) :=
  firstAppend ++ List.replicate n refusedAppend ++ [refusedAppend, .boot [.ok, .ok, .ok]]

/-- **What lapping leaves**: the flash counts one append at 0 s, and the record under seq 0 is
of the first second. -/
structure Lapped (fl : Flash) : Prop where
  counters : metaOf fl = ⟨1, 0⟩
  format : formatOf fl = sntlLayout.format
  floor : floorOf fl = 0
  record : recAt sntlLayout fl 0 = some { record₀ with seq := 0, ts := 1 }

theorem lapping_run {n : ℕ} (hn : (1 + UInt32.ofNat n : UInt32) = 0) :
    ∃ (fl : Flash) (asked : List UInt32) (served : List (UInt32 × SntlRecord)),
    (clockMachine sntlLayout).Guarded (fun d e => d.InTime sntlLayout e) (.start fun _ => none)
        (lapping n) ∧
      (clockMachine sntlLayout).run (.start fun _ => none) (lapping n) =
        ⟨⟨fl, some (booted fl), asked, served⟩, 0⟩ ∧ Lapped fl := by
  obtain ⟨hg, hmany⟩ := refusing_run n firstAppend_refusing
  obtain ⟨hin, hlast, hflash⟩ := refusing_step hmany
  have hfirst : (clockMachine sntlLayout).Guarded (fun d e => d.InTime sntlLayout e)
      (.start fun _ => none) firstAppend := by decide
  unfold lapping
  generalize List.replicate n refusedAppend = many at hg hmany hin hlast hflash ⊢
  generalize hd₁ : (clockMachine sntlLayout).run (.start fun _ => none) firstAppend = d₁ at *
  generalize hd₂ : (clockMachine sntlLayout).run d₁ many = d₂ at *
  rw [Nat.zero_add, hn] at hflash
  -- the restart finds its own format
  have hboot : (storeInit sntlLayout).run (d₂.step sntlLayout refusedAppend).life.flash
      [.ok, .ok, .ok] = .ret (0, booted (d₂.step sntlLayout refusedAppend).life.flash)
        (d₂.step sntlLayout refusedAppend).life.flash [] := by
    rw [storeInit_mounted, if_neg (not_not.2 hlast.format)]
  refine ⟨(d₂.step sntlLayout refusedAppend).life.flash,
    (d₂.step sntlLayout refusedAppend).life.asked, (d₂.step sntlLayout refusedAppend).life.served,
    ?_, ?_, ?_⟩
  · rw [Machine.guarded_append, Machine.guarded_append, Machine.run_append, hd₁, hd₂]
    exact ⟨⟨hfirst, hg⟩, hin, Or.inl hlast.format, trivial⟩
  · rw [Machine.run_append, Machine.run_append, hd₁, hd₂, Machine.run_cons, Machine.run_cons,
      Machine.run_nil]
    show (d₂.step sntlLayout refusedAppend).step sntlLayout (.boot [.ok, .ok, .ok]) = _
    generalize d₂.step sntlLayout refusedAppend = d₃ at hboot ⊢
    unfold Clocked.step Life.step
    simp only [hboot]
  · refine ⟨hlast.counters, hlast.format, hlast.floor, ?_⟩
    rw [hflash]
    exact recAt_putRec_self _ _ rfl

/-- **Timestamps fall behind** once an append has lapped the saved counters. -/
theorem clock_lapped : ¬ ∀ (fl : Flash) (evs : List (Event SntlRecord)),
    formatOf fl ≠ sntlLayout.format →
    (clockMachine sntlLayout).Guarded (fun d e => d.InTime sntlLayout e) (.start fl) evs →
    ((clockMachine sntlLayout).run (.start fl) evs).Ordered sntlLayout := by
  intro h
  -- the counter comes round to 0
  obtain ⟨n, hn⟩ : ∃ n : ℕ, (1 + UInt32.ofNat n : UInt32) = 0 := ⟨2 ^ 32 - 1, by decide⟩
  obtain ⟨fl, asked, served, hg, hrun, hl⟩ := lapping_run hn
  have hord := h (fun _ => none) (lapping n) (format_ne_zero sntlLayout) hg
  rw [hrun] at hord
  have hram : booted fl = ⟨true, ⟨1, 0⟩, 0, 0⟩ := by
    unfold booted
    rw [hl.counters, hl.floor]
  have hget : storeGet sntlLayout (booted fl) fl 0 = .ok { record₀ with seq := 0, ts := 1 } := by
    rw [storeGet_ok_iff, hram]
    exact ⟨by decide, by decide, rfl, hl.record, rfl⟩
  have hnext := hord.next (booted fl) rfl record₀ _ 0 _ _ [] [] (Nat.le_refl 0)
    (by rw [hram]; decide) (storeAppend_returns rfl record₀ 0 fl) 0 _ hget
  rw [hram] at hnext
  exact absurd hnext (by decide)

end PresenceNode
