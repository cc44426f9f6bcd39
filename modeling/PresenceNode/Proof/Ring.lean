import PresenceNode.Spec.History
import PresenceNode.Proof.Migration

/-!
# The ring over whole histories

* `Sound`: what ties the flash and the static variables to the ledger.
* `sound_half`, `sound_push`: the two writes of an append.
* `sound_boot`, `sound_migrated`, `sound_wiped`: a boot with the own format, with another
  one, and after a migration that was cut.
* `history_sound`: the invariant along every history without a refused counters write.
* `ring_correct`: without accidents the store answers exactly as the ledger says.
-/

namespace PresenceNode

open LittleEndian

variable {ρ ρ' : Type} {L : Layout ρ} {L' : Layout ρ'}

/-! ## The invariant -/

/-- The flash and the static variables agree with the ledger. -/
structure Sound (L : Layout ρ) (fl : Flash) (ram : Ram) (led : Ledger ρ) : Prop where
  mounted : ram.mounted = true
  format : formatOf fl = L.format
  counters : metaOf fl = ram.counters
  floorKept : floorOf fl = ram.floorSeq
  next : ram.counters.nextSeq.toNat = led.next
  floor : ram.floorSeq.toNat = led.floor
  readable : ∀ s : UInt32, led.oldest ≤ s.toNat → s.toNat < led.next →
    (led.torn = true → led.next ≠ s.toNat + storeCapacity) →
    ∃ r, led.entry s.toNat = some r ∧ recAt L fl s = some r ∧ L.seq r = s
  faithful : ∀ (s : UInt32) (r : ρ), recAt L fl s = some r → L.seq r = s → s.toNat < led.next →
    led.entry s.toNat = some r

/-- Two seqs less than a round apart have different slots. -/
theorem recId_ne {s n : UInt32} (h : s.toNat < n.toNat) (h' : n.toNat < s.toNat + storeCapacity) :
    recId s ≠ recId n := by
  intro he
  rw [recId_eq_iff] at he
  have hd := Nat.sub_mod_eq_zero_of_mod_eq he.symm
  rw [Nat.mod_eq_of_lt (by omega)] at hd
  omega

/-- **The record is written**: the slot it goes to loses what it held. -/
theorem sound_half {fl : Flash} {ram : Ram} {led : Ledger ρ} (h : Sound L fl ram led) {r : ρ}
    (hr : L.seq r = ram.counters.nextSeq) : Sound L (putRec L fl r) ram led.tear where
  mounted := h.mounted
  format := by rw [formatOf_putRec, h.format]
  counters := by rw [metaOf_putRec, h.counters]
  floorKept := by rw [floorOf_putRec, h.floorKept]
  next := h.next
  floor := h.floor
  readable := by
    intro s hlo hhi ht
    have hcap := ht rfl
    rw [Ledger.tear_next] at hhi hcap
    rw [Ledger.tear_oldest] at hlo
    have hold := (led.oldest_le_iff.1 hlo).2
    have hnext := h.next
    -- a seq that is still held is less than a round behind the record's
    have hslot : recId s ≠ recId (L.seq r) := by
      rw [hr]
      exact recId_ne (by rw [hnext]; exact hhi) (by omega)
    rw [recAt_putRec_ne fl r hslot]
    exact h.readable s hlo hhi (fun _ => hcap)
  faithful := by
    intro s r' hs hseq hhi
    rw [Ledger.tear_next] at hhi
    -- the record's own seq is not below the counter yet
    have hslot : recId s ≠ recId (L.seq r) := by
      intro he
      rw [recAt_putRec_self fl r he, Option.some.injEq] at hs
      subst hs
      have hnext := h.next
      rw [← hr, hseq] at hnext
      omega
    rw [recAt_putRec_ne fl r hslot] at hs
    exact h.faithful s r' hs hseq hhi

/-- A slot that is given up still agrees with the ledger. -/
theorem sound_tear {fl : Flash} {ram : Ram} {led : Ledger ρ} (h : Sound L fl ram led) :
    Sound L fl ram led.tear where
  mounted := h.mounted
  format := h.format
  counters := h.counters
  floorKept := h.floorKept
  next := h.next
  floor := h.floor
  readable := fun s hlo hhi ht => h.readable s hlo hhi (fun _ => ht rfl)
  faithful := h.faithful

/-- **The counters are written**: the record counts. -/
theorem sound_push {fl : Flash} {ram : Ram} {led : Ledger ρ} (h : Sound L fl ram led) {r : ρ}
    (hr : L.seq r = ram.counters.nextSeq) (hlt : led.next < 2 ^ 32 - 1) (up : ℕ) :
    Sound L (putMeta (putRec L fl r) (ram.bump up).counters) (ram.bump up) (led.push r) where
  mounted := h.mounted
  format := by rw [formatOf_putMeta, formatOf_putRec, h.format]
  counters := metaOf_putMeta _ _
  floorKept := by rw [floorOf_putMeta, floorOf_putRec]; exact h.floorKept
  next := by
    have hnext := h.next
    show (ram.counters.nextSeq + 1).toNat = led.next + 1
    rw [UInt32.toNat_add, UInt32.toNat_one, hnext]
    omega
  floor := h.floor
  readable := by
    intro s hlo hhi _
    rw [Ledger.oldest_le_iff, Ledger.push_next, Ledger.push_floor] at hlo
    rw [Ledger.push_next] at hhi
    obtain ⟨hfl, hcap⟩ := hlo
    have hnext := h.next
    rw [recAt_putMeta]
    by_cases hs : s.toNat = led.next
    · have hsr : s = L.seq r := by
        rw [hr]; exact UInt32.toNat_inj.1 (by rw [hs, hnext])
      rw [hs, led.entry_push_self, recAt_putRec_self fl r (by rw [hsr])]
      exact ⟨r, rfl, rfl, hsr.symm⟩
    · have hslot : recId s ≠ recId (L.seq r) := by
        rw [hr]
        exact recId_ne (by omega) (by omega)
      rw [led.entry_push_ne r hs, recAt_putRec_ne fl r hslot]
      exact h.readable s (led.oldest_le_iff.2 ⟨hfl, by omega⟩) (by omega) (fun _ => by omega)
  faithful := by
    intro s r' hs hseq hhi
    rw [Ledger.push_next] at hhi
    have hnext := h.next
    rw [recAt_putMeta] at hs
    by_cases hslot : recId s = recId (L.seq r)
    · rw [recAt_putRec_self fl r hslot, Option.some.injEq] at hs
      subst hs
      rw [← hseq, hr, hnext, led.entry_push_self]
    · rw [recAt_putRec_ne fl r hslot] at hs
      -- another slot, so another seq than the record's
      have hne : s.toNat ≠ led.next := by
        intro he
        apply hslot
        rw [hr, show s = ram.counters.nextSeq from UInt32.toNat_inj.1 (by rw [he, hnext])]
      rw [led.entry_push_ne r hne]
      exact h.faithful s r' hs hseq (by omega)

/-! ## Boots -/

/-- **A boot with the own format** finds everything again. -/
theorem sound_boot {fl fl' : Flash} {ram ram' : Ram} {led : Ledger ρ} {fs fs' : List Fate}
    (h : Sound L fl ram led) (boot : (storeInit L).run fl fs = .ret (0, ram') fl' fs') :
    Sound L fl' ram' led := by
  rcases storeInit_ret boot with ⟨-, rfl, rfl⟩ | ⟨hf, -⟩
  · exact ⟨rfl, h.format, rfl, rfl, by rw [← h.next, ← h.counters]; rfl,
      by rw [← h.floor, ← h.floorKept]; rfl, h.readable, h.faithful⟩
  · exact absurd h.format hf

/-- A flash without records. -/
def Blank (L : Layout ρ) (fl : Flash) : Prop := ∀ s, recAt L fl s = none

/-- A store without records agrees with a fresh ledger. -/
theorem sound_fresh {fl : Flash} (hf : formatOf fl = L.format) (hb : Blank L fl) {next floor : ℕ}
    (hnext : (metaOf fl).nextSeq.toNat = next) (hfloor : (floorOf fl).toNat = floor)
    (hle : next ≤ floor) : Sound L fl (booted fl) (.fresh next floor) where
  mounted := rfl
  format := hf
  counters := rfl
  floorKept := rfl
  next := hnext
  floor := hfloor
  readable := by
    intro s hlo hhi
    rw [Ledger.oldest_le_iff, Ledger.fresh_floor] at hlo
    rw [Ledger.fresh_next] at hhi
    omega
  faithful := by
    intro s r hs
    rw [hb s] at hs
    simp at hs

/-- **A boot with another format** starts a fresh ledger at the counter. -/
theorem sound_migrated {fl fl' : Flash} {ram : Ram} {fs fs' : List Fate}
    (hf : formatOf fl ≠ L.format) (boot : (storeInit L).run fl fs = .ret (0, ram) fl' fs') :
    Sound L fl' ram (.fresh (metaOf fl).nextSeq.toNat (metaOf fl).nextSeq.toNat) := by
  rcases storeInit_ret boot with ⟨hf', -⟩ | ⟨-, rfl, rfl⟩
  · exact absurd hf' hf
  · exact sound_fresh (formatOf_migrated _) (recAt_migrated _) (by rw [metaOf_migrated])
      (by rw [floorOf_migrated]) le_rfl

/-- A flash a cut migration can leave: no records, and the floor not below the counter if
the format is already written. -/
def Wiped (L : Layout ρ) (fl : Flash) : Prop :=
  Blank L fl ∧ (formatOf fl = L.format → (metaOf fl).nextSeq.toNat ≤ (floorOf fl).toNat)

theorem wiped_empty : Wiped L fun _ => none :=
  ⟨fun _ => rfl, fun _ => Nat.zero_le _⟩

theorem wiped_eraseFormat : Wiped L (eraseFormat L) := by
  refine ⟨?_, fun _ => ?_⟩
  · intro s
    unfold recAt eraseFormat
    rw [Function.update_of_ne (recId_gt s).2.1.symm]
  · have h : metaOf (eraseFormat L) = metaOf fun _ => none :=
      metaOf_congr (Function.update_of_ne (by decide) ..)
    rw [h]
    exact Nat.zero_le _

theorem wiped_eraseFloor (m : Meta) : Wiped L (eraseFloor L m) := by
  refine ⟨?_, fun _ => ?_⟩
  · intro s
    unfold eraseFloor
    rw [← wiped_eraseFormat.1 s]
    unfold recAt
    rw [Function.update_of_ne (recId_gt s).2.2.symm]
  · have h : metaOf (eraseFloor L m) = metaOf fun _ => none :=
      metaOf_congr (by
        unfold eraseFloor eraseFormat
        rw [Function.update_of_ne (by decide), Function.update_of_ne (by decide)])
    rw [h]
    exact Nat.zero_le _

theorem wiped_migrated (m : Meta) : Wiped L (migrated L m) :=
  ⟨recAt_migrated m, fun _ => by rw [metaOf_migrated, floorOf_migrated]⟩

/-- However often boots are cut, the flash is as it was or wiped. -/
theorem cutBoots_wiped {fl fl' : Flash} (h : Relation.ReflTransGen (CutBoot L) fl fl') :
    fl' = fl ∨ Wiped L fl' := by
  induction h with
  | refl => exact Or.inl rfl
  | tail _ hcut ih =>
    obtain ⟨fs, hrun⟩ := hcut
    rcases storeInit_cut hrun with rfl | rfl | rfl | rfl | rfl
    · exact ih
    · exact Or.inr wiped_empty
    · exact Or.inr wiped_eraseFormat
    · exact Or.inr (wiped_eraseFloor _)
    · exact Or.inr (wiped_migrated _)

/-- **A boot after a cut migration** goes on with the counters it finds. -/
theorem sound_wiped {fl fl' : Flash} {ram : Ram} {fs fs' : List Fate}
    (h : formatOf fl ≠ L.format ∨ Wiped L fl)
    (boot : (storeInit L).run fl fs = .ret (0, ram) fl' fs') :
    Sound L fl' ram (.fresh ram.counters.nextSeq.toNat ram.floorSeq.toNat) := by
  rcases storeInit_ret boot with ⟨hf, rfl, rfl⟩ | ⟨hf, rfl, rfl⟩
  · rcases h with h | h
    · exact absurd hf h
    · exact sound_fresh hf h.1 rfl rfl (h.2 hf)
  · -- the boot migrates once more: the floor it writes is the counter
    refine sound_fresh (formatOf_migrated _) (recAt_migrated _) rfl rfl ?_
    show (metaOf (migrated L (metaOf fl))).nextSeq.toNat ≤
      (floorOf (migrated L (metaOf fl))).toNat
    rw [metaOf_migrated, floorOf_migrated]

/-! ## Histories -/

theorem appended_eq {fl : Flash} {ram : Ram} {led : Ledger ρ} (h : Sound L fl ram led) (rec : ρ)
    (up : ℕ) : appended L led.next ram rec up = stamped L ram up rec := by
  unfold appended stamped
  rw [← h.next, UInt32.ofNat_toNat]

/-- **How an append is cut**, by whether the counters were saved. -/
theorem append_cut_saved {ram : Ram} {rec : ρ} {up : ℕ} {fl fl₁ : Flash} {fs : List Fate}
    (hm : ram.mounted = true) (h : (storeAppend L ram rec up).run fl fs = .cut fl₁) :
    (countersSaved fs = true ∧
        fl₁ = putMeta (putRec L fl (stamped L ram up rec)) (ram.bump up).counters) ∨
      (countersSaved fs = false ∧ (fl₁ = fl ∨ fl₁ = putRec L fl (stamped L ram up rec))) := by
  -- the fate of the first write decides whether there is a second one to cut
  unfold storeAppend nvsWrite at h
  simp only [hm, if_true, L.ts_stamp] at h
  rcases Durable.bind_cut_iff.1 h with h1 | ⟨err, fl₂, fs₂, h1, h2⟩
  · obtain ⟨done, rest, rfl, -⟩ := Durable.op_cut_fates h1
    exact Or.inr ⟨rfl, Durable.op_cut h1⟩
  clear h
  rcases Durable.op_ret_fates h1 with ⟨rfl, rfl, rfl, rfl⟩ | ⟨rfl, rfl, rfl⟩ | ⟨e, rfl, hneg, rfl⟩
  · simp [Durable.run_bind] at h2
  · rw [if_neg (lt_irrefl 0)] at h2
    rcases Durable.bind_cut_iff.1 h2 with h3 | ⟨err, fl₃, fs₃, -, h3⟩
    · obtain ⟨done, rest, rfl, h4⟩ := Durable.op_cut_fates h3
      cases done
      · exact Or.inr ⟨rfl, Or.inr h4⟩
      · exact Or.inl ⟨rfl, h4⟩
    · simp at h3
  · rw [if_pos hneg] at h2
    simp at h2

/-- **The invariant along every history** in which no counters write was refused. -/
theorem history_sound {A : Set Accident} (hA : .countersRefused ∉ A) {fl : Flash} {ram : Ram}
    {led : Ledger ρ} (H : History A L fl ram led) : Sound L fl ram led := by
  induction H with
  | install hf boot => exact sound_migrated hf boot
  | restart _ boot ih => exact sound_boot ih boot
  | upgrade _ hf boot ih =>
    have hm := sound_migrated (by rw [ih.format]; exact hf.symm) boot
    rwa [ih.counters, ih.next] at hm
  | append _ hlt run ih =>
    rw [appended_eq ih]
    obtain ⟨rfl, ⟨hneg, -⟩ | ⟨-, rfl, ⟨hneg, -⟩ | ⟨-, rfl⟩⟩⟩ := storeAppend_ret run
    · exact absurd hneg (lt_irrefl 0)
    · exact absurd hneg (lt_irrefl 0)
    · exact sound_push ih (seq_stamped _ _ _) hlt _
  | cutAppend _ _ hlt run boot ih =>
    rw [appended_eq ih]
    rcases append_cut_saved ih.mounted run with ⟨hs, rfl⟩ | ⟨hs, rfl | rfl⟩
    · rw [if_pos hs]
      exact sound_boot (sound_push ih (seq_stamped _ _ _) hlt _) boot
    · rw [if_neg (by simp [hs])]
      exact sound_boot (sound_tear ih) boot
    · rw [if_neg (by simp [hs])]
      exact sound_boot (sound_half ih (seq_stamped _ _ _)) boot
  | cutUpgrade _ _ hf cuts boot ih =>
    refine sound_wiped ?_ boot
    -- no cut boot changed anything, or the partition was wiped
    rcases cutBoots_wiped cuts with rfl | hw
    · exact Or.inl (by rw [ih.format]; exact hf.symm)
    · exact Or.inr hw
  | refused _ _ hrc run ih =>
    obtain ⟨-, ⟨-, -, rfl⟩ | ⟨-, hram, -⟩⟩ := storeAppend_ret run
    · exact ih
    · exact absurd (congrArg (fun r => r.counters.nextSeq) hram) (by simp [Ram.bump])
  | halfRefused h => exact absurd h hA

/-- Without cuts no slot is spoilt. -/
theorem history_whole {A : Set Accident} (hA : .cut ∉ A) {fl : Flash} {ram : Ram}
    {led : Ledger ρ} (H : History A L fl ram led) : led.torn = false := by
  induction H with
  | install => rfl
  | restart _ _ ih => exact ih
  | upgrade => rfl
  | append => rfl
  | cutAppend h => exact absurd h hA
  | cutUpgrade h => exact absurd h hA
  | refused _ _ _ _ ih => exact ih
  | halfRefused => rfl

/-! ## Answers -/

theorem sound_next {fl : Flash} {ram : Ram} {led : Ledger ρ} (h : Sound L fl ram led) :
    (storeNextSeq ram).toNat = led.next := h.next

/-- The larger of two words. -/
theorem toNat_larger (a b : UInt32) : (if a > b then a else b).toNat = max a.toNat b.toNat := by
  split_ifs with h
  · exact (max_eq_left (UInt32.le_iff_toNat_le.1 (UInt32.le_of_lt h))).symm
  · exact (max_eq_right (UInt32.le_iff_toNat_le.1 (UInt32.not_lt.1 h))).symm

theorem storeOldestSeq_toNat (ram : Ram) :
    (storeOldestSeq ram).toNat =
      max ram.floorSeq.toNat (ram.counters.nextSeq.toNat - storeCapacity) := by
  have hcap : (UInt32.ofNat storeCapacity).toNat = storeCapacity := rfl
  have hring : (if ram.counters.nextSeq > .ofNat storeCapacity
      then ram.counters.nextSeq - .ofNat storeCapacity else 0).toNat =
        ram.counters.nextSeq.toNat - storeCapacity := by
    split_ifs with h
    · rw [UInt32.toNat_sub_of_le _ _ (UInt32.le_of_lt h), hcap]
    · have h' := UInt32.le_iff_toNat_le.1 (UInt32.not_lt.1 h)
      rw [hcap] at h'
      rw [Nat.sub_eq_zero_of_le h', UInt32.toNat_zero]
  unfold storeOldestSeq
  simp only
  rw [toNat_larger, hring]

theorem sound_oldest {fl : Flash} {ram : Ram} {led : Ledger ρ} (h : Sound L fl ram led) :
    (storeOldestSeq ram).toNat = led.oldest := by
  rw [storeOldestSeq_toNat, h.floor, h.next]
  rfl

/-- **What a read answers**, by the ledger. -/
theorem sound_get {fl : Flash} {ram : Ram} {led : Ledger ρ} (h : Sound L fl ram led) {s : UInt32}
    {r : ρ} (hg : storeGet L ram fl s = .ok r) :
    led.oldest ≤ s.toNat ∧ s.toNat < led.next ∧ led.entry s.toNat = some r := by
  obtain ⟨hhi, hlo, -, hrec, hseq⟩ := storeGet_ok_iff.1 hg
  rw [UInt32.lt_iff_toNat_lt] at hhi
  rw [UInt32.le_iff_toNat_le, sound_oldest h] at hlo
  have hnext := h.next
  exact ⟨hlo, by omega, h.faithful s r hrec hseq (by omega)⟩

/-- **A seq that is held is read.** -/
theorem sound_held {fl : Flash} {ram : Ram} {led : Ledger ρ} (h : Sound L fl ram led) {s : UInt32}
    (hlo : led.oldest ≤ s.toNat) (hhi : s.toNat < led.next)
    (ht : led.torn = true → led.next ≠ s.toNat + storeCapacity) :
    ∃ r, led.entry s.toNat = some r ∧ storeGet L ram fl s = .ok r := by
  obtain ⟨r, hr, hrec, hseq⟩ := h.readable s hlo hhi ht
  have hnext := h.next
  refine ⟨r, hr, storeGet_ok_iff.2 ⟨?_, ?_, h.mounted, hrec, hseq⟩⟩
  · rw [UInt32.lt_iff_toNat_lt]; omega
  · rw [UInt32.le_iff_toNat_le, sound_oldest h]; exact hlo

/-! ## Histories exist -/

theorem format_ne_zero (L : Layout ρ) : formatOf (fun _ => none) ≠ L.format := by
  intro h
  have h' := congrArg UInt16.toNat h
  have hpos := L.size_pos
  rw [Layout.format, UInt16.toNat_ofNat_of_lt' L.size_lt] at h'
  exact absurd (show L.size = 0 from h'.symm) (by omega)

/-- The first boot on an empty partition. -/
theorem history_empty (A : Set Accident) (L : Layout ρ) :
    History A L (migrated L ⟨0, 0⟩) (booted (migrated L ⟨0, 0⟩)) (.fresh 0 0) := by
  have boot : (storeInit L).run (fun _ => none) [.ok, .ok, .ok] =
      .ret (0, booted (migrated L ⟨0, 0⟩)) (migrated L ⟨0, 0⟩) [] := by
    rw [storeInit_mounted, if_pos (format_ne_zero L)]
    simp only [booted, metaOf_migrated, floorOf_migrated]
    rfl
  exact History.install (format_ne_zero L) boot

/-- One more append, whatever the history was. -/
theorem history_append {A : Set Accident} (hA : .countersRefused ∉ A) {fl : Flash} {ram : Ram}
    {led : Ledger ρ} (H : History A L fl ram led) (hlt : led.next < 2 ^ 32 - 1) (rec : ρ) (up : ℕ) :
    History A L (putMeta (putRec L fl (stamped L ram up rec)) (ram.bump up).counters) (ram.bump up)
      (led.push (appended L led.next ram rec up)) :=
  H.append hlt (storeAppend_returns (history_sound hA H).mounted rec up fl)

/-! ## The theorem -/

/-- **The store is the ledger**, over every history without accidents: the counter, the
oldest seq, and for every seq the record appended under it while it is held, and `-ENOENT`
otherwise. -/
theorem ring_correct {fl : Flash} {ram : Ram} {led : Ledger ρ} (H : History ∅ L fl ram led) :
    (storeNextSeq ram).toNat = led.next ∧
      (storeOldestSeq ram).toNat = max led.floor (led.next - storeCapacity) ∧
      ∀ s : UInt32,
        (led.oldest ≤ s.toNat ∧ s.toNat < led.next →
          ∃ r, led.entry s.toNat = some r ∧ storeGet L ram fl s = .ok r) ∧
        (¬ (led.oldest ≤ s.toNat ∧ s.toNat < led.next) →
          storeGet L ram fl s = .error (-enoent)) := by
  have h := history_sound (by simp) H
  have ht : led.torn = false := history_whole (by simp) H
  refine ⟨sound_next h, sound_oldest h, fun s => ⟨?_, ?_⟩⟩
  · rintro ⟨hlo, hhi⟩
    exact sound_held h hlo hhi (by simp [ht])
  · intro hout
    cases hg : storeGet L ram fl s with
    | ok r =>
      obtain ⟨hlo, hhi, -⟩ := sound_get h hg
      exact absurd ⟨hlo, hhi⟩ hout
    | error e => rw [storeGet_error hg]

/-! The first boot on an empty partition, one append, and the flash and static variables
they leave. -/

abbrev flash₀ : Flash := migrated sntlLayout ⟨0, 0⟩
abbrev ram₀ : Ram := booted flash₀
abbrev record₀ : SntlRecord := SntlRecord.ofImage []
abbrev ram₁ : Ram := ram₀.bump 30000
abbrev flash₁ : Flash :=
  putMeta (putRec sntlLayout flash₀ (stamped sntlLayout ram₀ 30000 record₀)) ram₁.counters

/-- Two records and a restart: seq 0 is the first of them, and seq 1 the second. -/
theorem ring_correct_restart : ∃ fl ram,
    storeGet sntlLayout ram fl 0 = .ok (appended sntlLayout 0 ram₀ record₀ 30000) ∧
      storeGet sntlLayout ram fl 1 =
        .ok (appended sntlLayout 1 ram₁ { record₀ with headcount := 2 } 60000) := by
  have H₁ := history_append (by simp) (history_empty ∅ sntlLayout) (by decide) record₀ 30000
  have H₂ := history_append (by simp) H₁ (by decide) { record₀ with headcount := 2 } 60000
  obtain ⟨fs, ram, fl, fs', boot⟩ := storeInit_returns sntlLayout
    (putMeta (putRec sntlLayout flash₁ (stamped sntlLayout ram₁ 60000 { record₀ with headcount := 2 }))
      (ram₁.bump 60000).counters)
  obtain ⟨-, -, h⟩ := ring_correct (H₂.restart boot)
  obtain ⟨r₀, he₀, hr₀⟩ := (h 0).1 (by decide)
  obtain ⟨r₁, he₁, hr₁⟩ := (h 1).1 (by decide)
  have hfirst : some (appended sntlLayout 0 ram₀ record₀ 30000) = some r₀ := he₀
  have hsecond : some (appended sntlLayout 1 ram₁ { record₀ with headcount := 2 } 60000) = some r₁ :=
    he₁
  rw [Option.some.inj hfirst, Option.some.inj hsecond]
  exact ⟨fl, ram, hr₀, hr₁⟩

end PresenceNode
