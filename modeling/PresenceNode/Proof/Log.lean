import PresenceNode.Proof.Clock
import PresenceNode.Spec.Dates

/-!
# A log beside the store

* `storeAppend_fates`: what an append leaves, by the fates of its two writes.
* `append_written`, `append_unmounted`, `boot_booted`: what an event of a life leaves.
* `Written`: what shows in a ring is in the log, in the order of the seqs.
* `step_logged`: an event keeps that for the ring in RAM and the saved one, if each append that
  stores its record is logged and none laps the saved counters.
-/

namespace PresenceNode

variable {ρ τ : Type} {L : Layout ρ} {R : τ → ρ → Prop}

/-! ## What an event leaves -/

/-- The flash after an append on a mounted store whose writes meet `fates`. -/
def writtenFlash (L : Layout ρ) (fl : Flash) (ram : Ram) (rec : ρ) (up : ℕ) (fates : List Fate) :
    Flash :=
  if takesEffect fates = true then
    if bothTakeEffect fates = true
    then putMeta (putRec L fl (stamped L ram up rec)) (ram.bump up).counters
    else putRec L fl (stamped L ram up rec)
  else fl

/-- An append on a mounted store, by the fates of its two writes. -/
theorem storeAppend_fates {ram : Ram} (hm : ram.mounted = true) (rec : ρ) (up : ℕ) (fl : Flash)
    (fates : List Fate) :
    ((storeAppend L ram rec up).run fl fates).state = writtenFlash L fl ram rec up fates ∧
      ∀ a fl' fs', (storeAppend L ram rec up).run fl fates = .ret a fl' fs' →
        a.2.1 = if takesEffect fates = true then ram.bump up else ram := by
  have hneg : ∀ e : ℕ, -((e : ℤ) + 1) < 0 := fun e => by omega
  obtain ⟨mounted, counters, bootOffset, floorSeq⟩ := ram
  simp only at hm
  subst hm
  unfold storeAppend nvsWrite
  simp only [if_true, L.ts_stamp]
  rw [Durable.run_bind]
  match fates with
  | [] => exact ⟨rfl, fun a fl' fs' h => by cases h; rfl⟩
  | .fail e :: rest =>
    simp only [Durable.op, hneg e, if_true]
    exact ⟨rfl, fun a fl' fs' h => by cases h; rfl⟩
  | .cut true :: rest => exact ⟨rfl, fun a fl' fs' h => by cases h⟩
  | .cut false :: rest => exact ⟨rfl, fun a fl' fs' h => by cases h⟩
  | [.ok] => exact ⟨rfl, fun a fl' fs' h => by cases h; rfl⟩
  | .ok :: .ok :: rest => exact ⟨rfl, fun a fl' fs' h => by cases h; rfl⟩
  | .ok :: .fail e :: rest => exact ⟨rfl, fun a fl' fs' h => by cases h; rfl⟩
  | .ok :: .cut true :: rest => exact ⟨rfl, fun a fl' fs' h => by cases h⟩
  | .ok :: .cut false :: rest => exact ⟨rfl, fun a fl' fs' h => by cases h⟩

/-- **An append on a mounted store.** -/
theorem append_written {l : Life ρ} {ram : Ram} (hram : l.ram = some ram) (hm : ram.mounted = true)
    (rec : ρ) (up : ℕ) (fates : List Fate) :
    (l.step L (.append rec up fates)).flash = writtenFlash L l.flash ram rec up fates ∧
      ∀ ram' ∈ (l.step L (.append rec up fates)).ram,
        ram' = if takesEffect fates = true then ram.bump up else ram := by
  obtain ⟨hstate, hret⟩ := storeAppend_fates (L := L) hm rec up l.flash fates
  unfold Life.step
  rw [hram]
  simp only
  cases hrun : (storeAppend L ram rec up).run l.flash fates with
  | ret a fl fs =>
    rw [hrun] at hstate
    refine ⟨hstate, ?_⟩
    intro ram' hmem
    simp only [Option.mem_def, Option.some.injEq] at hmem
    rw [← hmem]
    exact hret a fl fs hrun
  | cut fl =>
    rw [hrun] at hstate
    exact ⟨hstate, fun ram' hmem => by simp at hmem⟩

/-- An append on a store that is not mounted fails. -/
theorem append_unmounted {l : Life ρ} {ram : Ram} (hram : l.ram = some ram)
    (hm : ram.mounted = false) (rec : ρ) (up : ℕ) (fates : List Fate) :
    l.step L (.append rec up fates) = l := by
  obtain ⟨flash, ram₀, asked, served⟩ := l
  simp only at hram
  subst hram
  unfold Life.step storeAppend nvsWrite
  simp only [hm, Bool.false_eq_true, if_false]
  rfl

/-- **A boot that finds its own format** leaves the flash, and a mounted store goes on from it. -/
theorem boot_booted {l : Life ρ} (hf : formatOf l.flash = L.format) (fates : List Fate) :
    (l.step L (.boot fates)).flash = l.flash ∧
      ∀ ram ∈ (l.step L (.boot fates)).ram, ram.mounted = true → ram = booted l.flash := by
  unfold Life.step
  simp only
  rcases storeInit_same hf fates with ⟨rc, fs, -, hrun⟩ | hrun | ⟨fs, hrun⟩
  · rw [hrun]
    refine ⟨rfl, ?_⟩
    intro ram hmem hm
    simp only [Option.mem_def, Option.some.injEq] at hmem
    rw [← hmem] at hm
    exact Bool.noConfusion hm
  · rw [hrun]
    exact ⟨rfl, fun ram hmem => by simp at hmem⟩
  · rw [hrun]
    refine ⟨rfl, ?_⟩
    intro ram hmem _
    simp only [Option.mem_def, Option.some.injEq] at hmem
    exact hmem.symm

/-! ## What shows is in the log -/

/-- **What shows in a ring is in the log**, latest first and in the order of the seqs; `R` is what an
entry is to its record. -/
structure Written (L : Layout ρ) (R : τ → ρ → Prop) (fl : Flash) (m : Meta) (log : List τ) :
    Prop where
  one : ∀ s r, Shown L fl m s r → ∃ p ∈ log, R p r
  two : ∀ a b ra rb, Shown L fl m a ra → Shown L fl m b rb → a < b →
    ∃ pa pb, R pa ra ∧ R pb rb ∧ [pb, pa].Sublist log

theorem written_blank {fl : Flash} (h : Blank L fl) (m : Meta) (log : List τ) :
    Written L R fl m log := by
  have hnone : ∀ s r, ¬ Shown L fl m s r := by
    intro s r hs
    have hheld := hs.held
    rw [h s] at hheld
    simp at hheld
  exact ⟨fun s r hs => absurd hs (hnone s r), fun a b ra rb ha => absurd ha (hnone a ra)⟩

/-- Where less shows and more is logged. -/
theorem written_of_shown {fl fl' : Flash} {m : Meta} {log log' : List τ}
    (h : Written L R fl m log) (hsub : log.Sublist log')
    (hshown : ∀ s r, Shown L fl' m s r → Shown L fl m s r) : Written L R fl' m log' := by
  refine ⟨?_, ?_⟩
  · intro s r hs
    obtain ⟨p, hp, hr⟩ := h.one s r (hshown s r hs)
    exact ⟨p, hsub.subset hp, hr⟩
  · intro a b ra rb ha hb hab
    obtain ⟨pa, pb, hra, hrb, hlog⟩ := h.two a b ra rb (hshown a ra ha) (hshown b rb hb) hab
    exact ⟨pa, pb, hra, hrb, hlog.trans hsub⟩

theorem written_more {fl : Flash} {m : Meta} {log log' : List τ} (h : Written L R fl m log)
    (hsub : log.Sublist log') : Written L R fl m log' :=
  written_of_shown h hsub fun _ _ hs => hs

theorem written_putMeta {fl : Flash} {m m' : Meta} {log : List τ} (h : Written L R fl m log) :
    Written L R (putMeta fl m') m log := by
  refine written_of_shown h (List.Sublist.refl _) ?_
  intro s r hs
  refine ⟨hs.ring, ?_, hs.seq⟩
  rw [← recAt_putMeta fl m' s]
  exact hs.held

/-- A record written outside the ring shows nowhere. -/
theorem written_foreign {fl : Flash} {m : Meta} {log : List τ} {r : ρ} (h : Written L R fl m log)
    (hout : ¬ m.InRing (L.seq r)) (p : τ) : Written L R (putRec L fl r) m (p :: log) := by
  refine written_of_shown h (List.sublist_cons_self p log) ?_
  intro s r' hs
  obtain ⟨hring, hheld, hseq⟩ := hs
  by_cases hslot : recId s = recId (L.seq r)
  · rw [recAt_putRec_self fl r hslot, Option.some.injEq] at hheld
    rw [← hheld] at hseq
    rw [hseq] at hout
    exact absurd hring hout
  · rw [recAt_putRec_ne fl r hslot] at hheld
    exact ⟨hring, hheld, hseq⟩

/-- **A record written at the counter** is the latest, and has the greatest seq. -/
theorem written_push {fl : Flash} {m m' : Meta} {log : List τ} {r : ρ} {p : τ}
    (h : Written L R fl m log) (hm : m'.nextSeq = m.nextSeq + 1) (hseq : L.seq r = m.nextSeq)
    (hr : R p r) : Written L R (putRec L fl r) m' (p :: log) := by
  refine ⟨?_, ?_⟩
  · intro s r' hs
    rcases shown_push hm hseq hs with ⟨-, rfl⟩ | ⟨-, hold⟩
    · exact ⟨p, List.mem_cons_self, hr⟩
    · obtain ⟨q, hq, hr'⟩ := h.one s r' hold
      exact ⟨q, List.mem_cons_of_mem _ hq, hr'⟩
  · intro a b ra rb ha hb hab
    rcases shown_push hm hseq ha with ⟨rfl, -⟩ | ⟨-, haold⟩
    · -- nothing stands above the counter
      rcases shown_push hm hseq hb with ⟨rfl, -⟩ | ⟨hblt, -⟩
      · exact absurd hab (UInt32.lt_irrefl _)
      · rw [UInt32.lt_iff_toNat_lt] at hab hblt
        omega
    · rcases shown_push hm hseq hb with ⟨-, rfl⟩ | ⟨-, hbold⟩
      · obtain ⟨q, hq, hr'⟩ := h.one a ra haold
        exact ⟨q, p, hr', hr, (List.singleton_sublist.2 hq).cons_cons _⟩
      · obtain ⟨pa, pb, hra, hrb, hlog⟩ := h.two a b ra rb haold hbold hab
        exact ⟨pa, pb, hra, hrb, hlog.cons _⟩

/-! ## The life of a store -/

/-- **A store and its log**: what shows in the ring in RAM, and what will show after a restart. -/
structure Logged (L : Layout ρ) (R : τ → ρ → Prop) (l : Life ρ) (log : List τ) : Prop where
  format : formatOf l.flash = L.format
  held : Written L R l.flash (metaOf l.flash) log
  live : ∀ ram ∈ l.ram, ram.mounted = true → Written L R l.flash ram.counters log

theorem start_logged {fl : Flash} (hf : formatOf fl = L.format) (hb : Blank L fl) (log : List τ) :
    Logged L R (.start fl) log :=
  ⟨hf, written_blank hb _ _, fun ram hram => by simp [Life.start] at hram⟩

theorem logged_more {l : Life ρ} {log log' : List τ} (h : Logged L R l log)
    (hsub : log.Sublist log') : Logged L R l log' :=
  ⟨h.format, written_more h.held hsub, fun ram hram hm => written_more (h.live ram hram hm) hsub⟩

theorem boot_logged {l : Life ρ} {log : List τ} (h : Logged L R l log) (fates : List Fate) :
    Logged L R (l.step L (.boot fates)) log := by
  obtain ⟨hflash, hram⟩ := boot_booted h.format fates
  refine ⟨?_, ?_, ?_⟩
  · rw [hflash]
    exact h.format
  · rw [hflash]
    exact h.held
  · intro ram hmem hm
    rw [hram ram hmem hm, hflash]
    exact h.held

/-- **An append that stores its record**, with its entry in the log. -/
theorem stored_logged {l : Life ρ} {log : List τ} (h : Logged L R l log) {ram : Ram}
    (hram : l.ram = some ram) (hm : ram.mounted = true) (rec : ρ) (up : ℕ) {fates : List Fate}
    (htake : takesEffect fates = true) {p : τ} (hr : R p (stamped L ram up rec))
    (hlap : ¬ (metaOf l.flash).InRing ram.counters.nextSeq) :
    Logged L R (l.step L (.append rec up fates)) (p :: log) := by
  obtain ⟨hflash, hram'⟩ := append_written (L := L) hram hm rec up fates
  have hlive : Written L R (putRec L l.flash (stamped L ram up rec)) (ram.bump up).counters
      (p :: log) := written_push (h.live ram hram hm) rfl (seq_stamped ram up rec) hr
  unfold writtenFlash at hflash
  rw [if_pos htake] at hflash
  by_cases hboth : bothTakeEffect fates = true
  · rw [if_pos hboth] at hflash
    refine ⟨?_, ?_, ?_⟩
    · rw [hflash, formatOf_putMeta, formatOf_putRec]
      exact h.format
    · rw [hflash, metaOf_putMeta]
      exact written_putMeta hlive
    · intro ram' hmem _
      rw [hram' ram' hmem, if_pos htake, hflash]
      exact written_putMeta hlive
  · rw [if_neg hboth] at hflash
    refine ⟨?_, ?_, ?_⟩
    · rw [hflash, formatOf_putRec]
      exact h.format
    · rw [hflash, metaOf_putRec]
      refine written_foreign h.held ?_ p
      rw [seq_stamped]
      exact hlap
    · intro ram' hmem _
      rw [hram' ram' hmem, if_pos htake, hflash]
      exact hlive

/-- An append that stores nothing leaves the flash and the static variables. -/
theorem append_refused {l : Life ρ} (rec : ρ) (up : ℕ) {fates : List Fate}
    (h : ∀ ram ∈ l.ram, ram.mounted = true → takesEffect fates = false) :
    (l.step L (.append rec up fates)).flash = l.flash ∧
      ∀ ram' ∈ (l.step L (.append rec up fates)).ram, ram' ∈ l.ram := by
  cases hram : l.ram with
  | none =>
    have hsame : l.step L (.append rec up fates) = l := by
      unfold Life.step
      rw [hram]
    rw [hsame, hram]
    exact ⟨rfl, fun _ hmem => hmem⟩
  | some ram =>
    by_cases hm : ram.mounted = true
    · obtain ⟨hflash, hram'⟩ := append_written (L := L) hram hm rec up fates
      have hno := h ram hram hm
      unfold writtenFlash at hflash
      rw [hno, if_neg Bool.false_ne_true] at hflash
      refine ⟨hflash, ?_⟩
      intro ram' hmem
      rw [hram' ram' hmem, hno, if_neg Bool.false_ne_true]
      exact rfl
    · rw [append_unmounted hram (Bool.not_eq_true _ ▸ hm), hram]
      exact ⟨rfl, fun _ hmem => hmem⟩

/-- **An event** keeps the log. -/
theorem step_logged {l : Life ρ} {log log' : List τ} (h : Logged L R l log) (e : Event ρ)
    (hsub : log.Sublist log')
    (happ : ∀ rec up fates, e = .append rec up fates → ∀ ram ∈ l.ram, ram.mounted = true →
      takesEffect fates = true → ¬ (metaOf l.flash).InRing ram.counters.nextSeq ∧
        ∃ p, log' = p :: log ∧ R p (stamped L ram up rec)) :
    Logged L R (l.step L e) log' := by
  cases e with
  | boot fates => exact logged_more (boot_logged h fates) hsub
  | append rec up fates =>
    by_cases hstore : ∃ ram ∈ l.ram, ram.mounted = true ∧ takesEffect fates = true
    · obtain ⟨ram, hram, hm, htake⟩ := hstore
      obtain ⟨hlap, p, rfl, hr⟩ := happ rec up fates rfl ram hram hm htake
      exact stored_logged h hram hm rec up htake hr hlap
    · have hno : ∀ ram ∈ l.ram, ram.mounted = true → takesEffect fates = false := by
        intro ram hram hm
        rw [← Bool.not_eq_true]
        exact fun htake => hstore ⟨ram, hram, hm, htake⟩
      obtain ⟨hflash, hram'⟩ := append_refused (L := L) rec up hno
      refine logged_more ⟨?_, ?_, ?_⟩ hsub
      · rw [hflash]
        exact h.format
      · rw [hflash]
        exact h.held
      · intro ram' hmem
        rw [hflash]
        exact h.live ram' (hram' ram' hmem)
  | get seq =>
    refine logged_more ?_ hsub
    unfold Life.step
    cases hram : l.ram with
    | none => exact h
    | some ram =>
      obtain ⟨hfl, hr⟩ := answer_state (L := L) l ram seq
      refine ⟨?_, ?_, ?_⟩
      · simp only [hfl]
        exact h.format
      · simp only [hfl]
        exact h.held
      · simp only [hfl, hr]
        exact h.live
  | off => exact ⟨h.format, written_more h.held hsub, fun ram hram => by simp [Life.step] at hram⟩

/-- What can be read shows in the ring. -/
theorem shown_of_get {ram : Ram} {fl : Flash} {seq : UInt32} {r : ρ}
    (h : storeGet L ram fl seq = .ok r) : ram.mounted = true ∧ Shown L fl ram.counters seq r := by
  obtain ⟨hlt, hold, hm, hheld, hseq⟩ := storeGet_ok_iff.1 h
  rw [UInt32.le_iff_toNat_le, storeOldestSeq_toNat] at hold
  exact ⟨hm, ⟨hlt, by omega⟩, hheld, hseq⟩

/-- **Two records that can be read** have their entries in the order of their seqs. -/
theorem logged_pair {l : Life ρ} {log : List τ} (h : Logged L R l log) {ram : Ram}
    (hram : l.ram = some ram) {a b : UInt32} {ra rb : ρ} (ha : storeGet L ram l.flash a = .ok ra)
    (hb : storeGet L ram l.flash b = .ok rb) (hab : a < b) :
    ∃ pa pb, R pa ra ∧ R pb rb ∧ [pb, pa].Sublist log := by
  obtain ⟨hm, hsa⟩ := shown_of_get ha
  obtain ⟨-, hsb⟩ := shown_of_get hb
  exact (h.live ram hram hm).two a b ra rb hsa hsb hab

end PresenceNode
