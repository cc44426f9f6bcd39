import PresenceNode.Proof.Recorder

/-!
# What a node remembers

* `sound_booted`: what the next boot finds in flash is what the store has.
* `Remembers`, `step_remembers`: as long as the flash works, the ledger has an entry for every window.
* `recorder_remembers`: the latest 2880 windows can be read, each under its number, and no more.
-/

namespace PresenceNode

variable {ρ : Type} {L : Layout ρ}

/-- What a boot finds. -/
theorem sound_booted {fl : Flash} {ram : Ram} {led : Ledger ρ} (h : Sound L fl ram led) :
    Sound L fl (booted fl) led where
  mounted := rfl
  format := h.format
  counters := rfl
  floorKept := rfl
  next := (congrArg (fun m : Meta => m.nextSeq.toNat) h.counters).trans h.next
  floor := (congrArg UInt32.toNat h.floorKept).trans h.floor
  readable := h.readable
  faithful := h.faithful

/-- **An append without a failure** is one more entry. -/
theorem append_sound {l : Life ρ} {ram : Ram} {led : Ledger ρ} (hram : l.ram = some ram)
    (h : Sound L l.flash ram led) (hlt : led.next < 2 ^ 32 - 1) (rec : ρ) (up : ℕ) :
    (l.step L (.append rec up [])).ram = some (ram.bump up) ∧
      Sound L (l.step L (.append rec up [])).flash (ram.bump up)
        (led.push (stamped L ram up rec)) := by
  have hrun := storeAppend_returns (L := L) h.mounted rec up l.flash
  simp only [Life.step, hram, hrun]
  exact ⟨trivial, sound_push h (seq_stamped ram up rec) hlt up⟩

namespace Recorder

/-- **The ledger of the windows**: from `n₀` on an entry for each, in order, and each tells of its
window. -/
structure Remembers (n₀ : ℕ) (r : Recorder) (led : Ledger SntlRecord) : Prop where
  whole : led.torn = false
  floor : led.floor = n₀
  next : led.next = n₀ + r.flushes.length
  flash : PresenceNode.Sound sntlLayout r.life.flash (booted r.life.flash) led
  live : ∀ ram ∈ r.life.ram, ram.mounted = true →
    PresenceNode.Sound sntlLayout r.life.flash ram led
  entry : ∀ k f, r.flushes.reverse[k]? = some f →
    ∃ rec, led.entry (n₀ + k) = some rec ∧ Tells f rec

theorem start_remembers {fl : Flash} (hf : formatOf fl = sntlLayout.format)
    (hb : Blank sntlLayout fl) (hfresh : (metaOf fl).nextSeq = floorOf fl) :
    Remembers (floorOf fl).toNat (start fl) (.fresh (floorOf fl).toNat (floorOf fl).toNat) where
  whole := rfl
  floor := rfl
  next := rfl
  flash := sound_fresh hf hb (congrArg UInt32.toNat hfresh) rfl le_rfl
  live _ hram := by cases hram
  entry k f hk := by cases hk

/-- A boot, that may fail or be cut. -/
theorem boot_remembers {n₀ : ℕ} {r : Recorder} {led : Ledger SntlRecord} (h : Remembers n₀ r led)
    (fates : List Fate) (ready : Bool) (cmd : ℤ) :
    Remembers n₀ (r.step (.boot fates ready cmd)) led := by
  obtain ⟨hflash, hram⟩ := boot_booted (L := sntlLayout) (l := r.life) h.flash.format fates
  refine ⟨h.whole, h.floor, h.next, ?_, ?_, h.entry⟩
  · show PresenceNode.Sound sntlLayout (r.life.step sntlLayout (.boot fates)).flash
      (booted (r.life.step sntlLayout (.boot fates)).flash) led
    rw [hflash]
    exact h.flash
  · intro ram hmem hm
    show PresenceNode.Sound sntlLayout (r.life.step sntlLayout (.boot fates)).flash ram led
    rw [hram ram hmem hm, hflash]
    exact h.flash

/-- One more entry, for one more window. -/
theorem entry_push {n₀ : ℕ} {led : Ledger SntlRecord} {flushes : List Flush}
    (hnext : led.next = n₀ + flushes.length)
    (h : ∀ k f, flushes.reverse[k]? = some f → ∃ rec, led.entry (n₀ + k) = some rec ∧ Tells f rec)
    {f : Flush} {rec : SntlRecord} (htells : Tells f rec) (k : ℕ) (g : Flush)
    (hk : (f :: flushes).reverse[k]? = some g) :
    ∃ rec', (led.push rec).entry (n₀ + k) = some rec' ∧ Tells g rec' := by
  rw [List.reverse_cons] at hk
  rcases lt_or_ge k flushes.reverse.length with hlt | hge
  · rw [List.getElem?_append_left hlt] at hk
    obtain ⟨rec', hrec, hg⟩ := h k g hk
    rw [List.length_reverse] at hlt
    refine ⟨rec', ?_, hg⟩
    rw [Ledger.entry_push_ne, hrec]
    omega
  · rw [List.getElem?_append_right hge, List.getElem?_singleton] at hk
    split_ifs at hk with hzero
    cases hk
    rw [List.length_reverse] at hge hzero
    have hkey : n₀ + k = led.next := by omega
    exact ⟨rec, by rw [hkey, Ledger.entry_push_self], htells⟩

/-- **A flush is one more entry.** -/
theorem flush_remembers {n₀ : ℕ} {r : Recorder} {led : Ledger SntlRecord} (h : Remembers n₀ r led)
    (hs : r.Sound) (hrun : r.life.ram.isSome ∧ r.due = true) {now : ℤ} {status : Transfer} {up : ℕ}
    {fates : List Fate} (hg : r.InOrder (.flush now status up fates))
    (hw : r.Works (.flush now status up fates)) :
    ∃ led', Remembers n₀ (r.step (.flush now status up fates)) led' := by
  obtain ⟨ram, hram⟩ := Option.isSome_iff_exists.1 hrun.1
  obtain ⟨rfl, hworks⟩ := hw
  obtain ⟨hm, hlt⟩ := hworks ram hram
  have hlive := h.live ram hram hm
  rw [hlive.next] at hlt
  set f : Flush := ⟨r.air, r.past, now, status⟩ with hf
  obtain ⟨hram', hsound⟩ := append_sound hram hlive hlt (windowFlush r.sensors now status).1 up
  have htells : Tells f (stamped sntlLayout ram up (windowFlush r.sensors now status).1) :=
    due_tells hs hrun.2 status hg _ _
  rw [step_flush hrun]
  refine ⟨led.push (stamped sntlLayout ram up (windowFlush r.sensors now status).1), rfl, h.floor,
    ?_, sound_booted hsound, ?_, ?_⟩
  · show led.next + 1 = n₀ + (r.flushes.length + 1)
    rw [h.next]
    rfl
  · intro ram' hmem _
    have hmem' : (r.life.step sntlLayout
      (.append (windowFlush r.sensors now status).1 up [])).ram = some ram' := hmem
    rw [hram', Option.some.injEq] at hmem'
    rw [← hmem']
    exact hsound
  · exact entry_push h.next h.entry htells

theorem step_remembers {n₀ : ℕ} (r : Recorder) (e : RecorderEvent)
    (h : r.Sound ∧ ∃ led, Remembers n₀ r led) (hg : r.InOrder e ∧ r.Works e) :
    (r.step e).Sound ∧ ∃ led, Remembers n₀ (r.step e) led := by
  obtain ⟨hs, led, hl⟩ := h
  refine ⟨step_sound r e hs hg.1, ?_⟩
  cases e with
  | boot fates ready cmd => exact ⟨led, boot_remembers hl fates ready cmd⟩
  | frame frame now =>
    simp only [step]
    split_ifs
    · exact ⟨led, hl.whole, hl.floor, hl.next, hl.flash, hl.live, hl.entry⟩
    · exact ⟨led, hl⟩
  | poll t =>
    simp only [step]
    split_ifs
    · unfold count
      simp only
      split_ifs <;> exact ⟨led, hl.whole, hl.floor, hl.next, hl.flash, hl.live, hl.entry⟩
    · exact ⟨led, hl⟩
  | flush now status up fates =>
    by_cases hrun : r.life.ram.isSome ∧ r.due = true
    · exact flush_remembers hl hs hrun hg.1 hg.2
    · have hstep : r.step (.flush now status up fates) = r := by
        simp only [step, if_neg hrun]
      rw [hstep]
      exact ⟨led, hl⟩
  | off =>
    refine ⟨led, hl.whole, hl.floor, hl.next, hl.flash, ?_, hl.entry⟩
    intro ram hram
    cases hram

/-- **The node remembers its last 24 hours.** Over every run from a fresh store, with losses of power
between two operations and boots that may fail, as long as the flash works where a window is flushed:
the `k`-th window since the beginning is stored under the seq `n₀ + k`; while it is one of the latest
2880, that record can be read and tells of it; and nothing else can be read. -/
theorem recorder_remembers {fl : Flash} (hf : formatOf fl = sntlLayout.format)
    (hb : Blank sntlLayout fl) (hfresh : (metaOf fl).nextSeq = floorOf fl)
    {evs : List RecorderEvent}
    (hg : recorderMachine.Guarded (fun r e => r.InOrder e ∧ r.Works e) (start fl) evs) {ram : Ram}
    (hram : (recorderMachine.run (start fl) evs).life.ram = some ram) (hm : ram.mounted = true) :
    (storeNextSeq ram).toNat =
        (floorOf fl).toNat + (recorderMachine.run (start fl) evs).flushes.length ∧
      (∀ k f, (recorderMachine.run (start fl) evs).flushes.reverse[k]? = some f →
        (recorderMachine.run (start fl) evs).flushes.length ≤ k + storeCapacity →
        ∃ rec, storeGet sntlLayout ram (recorderMachine.run (start fl) evs).life.flash
            (.ofNat ((floorOf fl).toNat + k)) = .ok rec ∧ Tells f rec) ∧
      ∀ seq rec, storeGet sntlLayout ram (recorderMachine.run (start fl) evs).life.flash seq = .ok rec →
        ∃ k f, seq.toNat = (floorOf fl).toNat + k ∧
          (recorderMachine.run (start fl) evs).flushes.length ≤ k + storeCapacity ∧
          (recorderMachine.run (start fl) evs).flushes.reverse[k]? = some f ∧ Tells f rec := by
  obtain ⟨-, led, h⟩ := Machine.run_invariant step_remembers
    ⟨start_sound fl, _, start_remembers hf hb hfresh⟩ hg
  set r := recorderMachine.run (start fl) evs with hr
  set n₀ := (floorOf fl).toNat with hn₀
  have hs := h.live ram hram hm
  have hnext : (storeNextSeq ram).toNat = n₀ + r.flushes.length := (sound_next hs).trans h.next
  refine ⟨hnext, ?_, ?_⟩
  · intro k f hk hcap
    obtain ⟨rec, hentry, htells⟩ := h.entry k f hk
    have hlt : k < r.flushes.length := by
      rw [← List.length_reverse]
      exact (List.getElem?_eq_some_iff.1 hk).1
    have hseq : (UInt32.ofNat (n₀ + k)).toNat = n₀ + k := by
      have hbound := (storeNextSeq ram).toNat_lt
      rw [UInt32.toNat_ofNat', Nat.mod_eq_of_lt (by omega)]
    obtain ⟨rec', hentry', hget⟩ := sound_held hs (s := .ofNat (n₀ + k))
      (led.oldest_le_iff.2 ⟨by rw [h.floor, hseq]; omega, by rw [h.next, hseq]; omega⟩)
      (by rw [h.next, hseq]; omega) (by simp [h.whole])
    rw [hseq, hentry, Option.some.injEq] at hentry'
    exact ⟨rec, hentry' ▸ hget, htells⟩
  · intro seq rec hget
    obtain ⟨hold, hlt, hentry⟩ := sound_get hs hget
    obtain ⟨hfloor, hcap⟩ := led.oldest_le_iff.1 hold
    rw [h.floor] at hfloor
    rw [h.next] at hcap hlt
    obtain ⟨k, hk⟩ := Nat.exists_eq_add_of_le hfloor
    have hklt : k < r.flushes.reverse.length := by
      rw [List.length_reverse]
      omega
    obtain ⟨rec', hentry', htells⟩ := h.entry k _ (List.getElem?_eq_getElem hklt)
    rw [← hk, hentry, Option.some.injEq] at hentry'
    exact ⟨k, _, hk, by omega, List.getElem?_eq_getElem hklt, hentry' ▸ htells⟩

set_option maxRecDepth 10000 in
theorem recorder_remembers_twoWindows : ∃ f,
    (recorderMachine.run (start flash₀) twoWindows).flushes.reverse[1]? = some f ∧
      Tells f silentRecord := by
  have hg : recorderMachine.Guarded (fun r e => r.InOrder e ∧ r.Works e) (start flash₀)
      twoWindows := by decide +kernel
  have hram : (recorderMachine.run (start flash₀) twoWindows).life.ram =
      some ⟨true, ⟨2, 60⟩, 0, 0⟩ := by decide +kernel
  have hget : storeGet sntlLayout ⟨true, ⟨2, 60⟩, 0, 0⟩
      (recorderMachine.run (start flash₀) twoWindows).life.flash 1 = .ok silentRecord := by
    decide +kernel
  have hfloor : (floorOf flash₀).toNat = 0 := by decide +kernel
  obtain ⟨k, f, hk, -, hf, htells⟩ := (recorder_remembers (formatOf_migrated _) (recAt_migrated _)
    (by decide +kernel) hg hram rfl).2.2 1 _ hget
  rw [hfloor, Nat.zero_add] at hk
  rw [← hk] at hf
  exact ⟨f, hf, htells⟩

end Recorder

end PresenceNode
