import PresenceNode.Proof.Ring
import PresenceNode.Spec.Life

/-!
# A served seq keeps its meaning

* `Safe`: every seq that was served is below the running counter, and what its slot holds
  under that seq is what was served.
* `step_safe`, `run_safe`: the invariant along a guarded run.
* `served_consistent`: in a guarded run no seq is served with two records.
* `served_twice`: unguarded, a refused write of the counters and a restart are enough.
-/

namespace PresenceNode

namespace Life

variable {ρ : Type} {L : Layout ρ}

/-- The invariant of a guarded run. -/
structure Safe (L : Layout ρ) (l : Life ρ) : Prop where
  format : formatOf l.flash = L.format
  asked : ∀ s r, (s, r) ∈ l.served → s ∈ l.asked
  below : ∀ ram, l.ram = some ram → ram.mounted = true → ∀ s ∈ l.asked, s < ram.counters.nextSeq
  slot : ∀ s r r', (s, r) ∈ l.served → recAt L l.flash s = some r' → L.seq r' = s → r' = r
  consistent : l.Consistent

theorem start_safe {fl : Flash} (hf : formatOf fl = L.format) : Safe L (start fl) where
  format := hf
  asked := by intro s r h; simp [start] at h
  below := by intro ram h; simp [start] at h
  slot := by intro s r r' h; simp [start] at h
  consistent := by intro s r r' h; simp [start] at h

/-! ## The steps -/

/-- Without power nothing is at stake. -/
theorem safe_off {l : Life ρ} (h : Safe L l) : Safe L { l with ram := none } where
  format := h.format
  asked := h.asked
  below := by intro ram hr; simp at hr
  slot := h.slot
  consistent := h.consistent

/-- The power comes back with a counter beyond what was asked, or with no store. -/
theorem safe_on {l : Life ρ} (h : Safe L l) {ram : Ram}
    (hr : ram.mounted = true → ∀ s ∈ l.asked, s < ram.counters.nextSeq) :
    Safe L { l with ram := some ram } where
  format := h.format
  asked := h.asked
  below := by
    intro ram' hram
    simp only [Option.some.injEq] at hram
    subst hram
    exact hr
  slot := h.slot
  consistent := h.consistent

/-- A record goes to the slot of a seq that was never asked for. -/
theorem safe_putRec {l : Life ρ} (h : Safe L l) {ram : Ram} (hram : l.ram = some ram)
    (hm : ram.mounted = true) {r : ρ} (hr : L.seq r = ram.counters.nextSeq) :
    Safe L { l with flash := putRec L l.flash r } where
  format := by rw [formatOf_putRec]; exact h.format
  asked := h.asked
  below := h.below
  slot := by
    intro s r₁ r₂ hs hrec hseq
    by_cases hslot : recId s = recId (L.seq r)
    · rw [recAt_putRec_self _ r hslot, Option.some.injEq] at hrec
      subst hrec
      -- a served seq is below the counter, and the record's seq is the counter
      have hlt := h.below ram hram hm s (h.asked s r₁ hs)
      rw [← hseq, hr] at hlt
      exact absurd hlt (UInt32.lt_irrefl _)
    · rw [recAt_putRec_ne _ r hslot] at hrec
      exact h.slot s r₁ r₂ hs hrec hseq
  consistent := h.consistent

/-- The counters do not touch the slots. -/
theorem safe_putMeta {l : Life ρ} (h : Safe L l) (m : Meta) :
    Safe L { l with flash := putMeta l.flash m } where
  format := by rw [formatOf_putMeta]; exact h.format
  asked := h.asked
  below := h.below
  slot := by
    intro s r₁ r₂ hs hrec
    rw [recAt_putMeta] at hrec
    exact h.slot s r₁ r₂ hs hrec
  consistent := h.consistent

/-- The counter goes up by one, below the wrap. -/
theorem lt_bump {ram : Ram} (hlt : storeNextSeq ram < .ofNat (2 ^ 32 - 1)) (up : ℕ) {s : UInt32}
    (hs : s < ram.counters.nextSeq) : s < (ram.bump up).counters.nextSeq := by
  rw [UInt32.lt_iff_toNat_lt] at hlt hs ⊢
  have hlt' : ram.counters.nextSeq.toNat < 2 ^ 32 - 1 := hlt
  show s.toNat < (ram.counters.nextSeq + 1).toNat
  rw [UInt32.toNat_add, UInt32.toNat_one]
  omega

/-- **A boot** with the counter in flash beyond what was asked. -/
theorem boot_safe {l : Life ρ} (h : Safe L l) (fates : List Fate)
    (hg : ∀ s ∈ l.asked, s < (metaOf l.flash).nextSeq) : Safe L (l.step L (.boot fates)) := by
  simp only [step]
  rcases storeInit_same h.format fates with ⟨rc, fs, -, hrun⟩ | hrun | ⟨fs, hrun⟩
  · rw [hrun]
    exact safe_on h (by simp [Ram.zero])
  · rw [hrun]
    exact safe_off h
  · rw [hrun]
    exact safe_on h (fun _ => hg)

/-- **An append**, whatever becomes of its two writes. -/
theorem append_safe {l : Life ρ} (h : Safe L l) (rec : ρ) (up : ℕ) (fates : List Fate)
    (hg : ∀ ram ∈ l.ram, storeNextSeq ram < .ofNat (2 ^ 32 - 1)) :
    Safe L (l.step L (.append rec up fates)) := by
  simp only [step]
  cases hram : l.ram with
  | none => exact h
  | some ram =>
    simp only
    have hseq : L.seq (stamped L ram up rec) = ram.counters.nextSeq := seq_stamped _ _ _
    have hup : ram.mounted = true → ∀ s ∈ l.asked, s < (ram.bump up).counters.nextSeq :=
      fun hm s hs => lt_bump (hg ram hram) up (h.below ram hram hm s hs)
    cases hrun : (storeAppend L ram rec up).run l.flash fates with
    | ret a fl fs =>
      obtain ⟨rc, ram', out⟩ := a
      simp only
      obtain ⟨rfl, ⟨-, rfl, rfl⟩ | ⟨hm, rfl, ⟨-, rfl⟩ | ⟨-, rfl⟩⟩⟩ := storeAppend_ret hrun
      · rw [← hram]; exact h
      · exact safe_on (safe_putRec h hram hm hseq) (fun _ => hup hm)
      · exact safe_on (safe_putMeta (safe_putRec h hram hm hseq) _) (fun _ => hup hm)
    | cut fl =>
      simp only
      have hm : ram.mounted = true := storeAppend_cut_mounted hrun
      rcases storeAppend_cut hrun with rfl | rfl | rfl
      · exact safe_off h
      · exact safe_off (safe_putRec h hram hm hseq)
      · exact safe_off (safe_putMeta (safe_putRec h hram hm hseq) _)

/-- A seq below the counter is noted as asked for. -/
theorem safe_ask {l : Life ρ} (h : Safe L l) {ram : Ram} (hram : l.ram = some ram) {seq : UInt32}
    (hlt : seq < ram.counters.nextSeq) : Safe L { l with asked := seq :: l.asked } where
  format := h.format
  asked := fun s r hs => List.mem_cons_of_mem _ (h.asked s r hs)
  below := by
    intro ram' hram' hm s hs
    rcases List.mem_cons.1 hs with rfl | hs
    · have he : ram = ram' := Option.some.inj (hram.symm.trans hram')
      rw [← he]
      exact hlt
    · exact h.below ram' hram' hm s hs
  slot := h.slot
  consistent := h.consistent

/-- A seq is served with what its slot holds: it is what was served before. -/
theorem safe_serve {l : Life ρ} (h : Safe L l) {seq : UInt32} {r : ρ} (hs : seq ∈ l.asked)
    (hrec : recAt L l.flash seq = some r) (hseq : L.seq r = seq) :
    Safe L { l with served := (seq, r) :: l.served } where
  format := h.format
  asked := by
    intro s r₁ hs₁
    rcases List.mem_cons.1 hs₁ with hs₁ | hs₁
    · simp only [Prod.mk.injEq] at hs₁
      rw [hs₁.1]
      exact hs
    · exact h.asked s r₁ hs₁
  below := h.below
  slot := by
    intro s r₁ r₂ hs₁ hrec₂ hseq₂
    rcases List.mem_cons.1 hs₁ with hs₁ | hs₁
    · simp only [Prod.mk.injEq] at hs₁
      obtain ⟨rfl, rfl⟩ := hs₁
      exact Option.some.inj (hrec₂.symm.trans hrec)
    · exact h.slot s r₁ r₂ hs₁ hrec₂ hseq₂
  consistent := by
    intro s r₁ r₂ hs₁ hs₂
    rcases List.mem_cons.1 hs₁ with h1 | h1
    · simp only [Prod.mk.injEq] at h1
      obtain ⟨rfl, rfl⟩ := h1
      rcases List.mem_cons.1 hs₂ with h2 | h2
      · simp only [Prod.mk.injEq, true_and] at h2
        exact h2.symm
      · -- it was served before: the slot still holds that record
        exact h.slot s r₂ r₁ h2 hrec hseq
    · rcases List.mem_cons.1 hs₂ with h2 | h2
      · simp only [Prod.mk.injEq] at h2
        obtain ⟨rfl, rfl⟩ := h2
        exact (h.slot s r₁ r₂ h1 hrec hseq).symm
      · exact h.consistent s r₁ r₂ h1 h2

/-- **A read.** -/
theorem get_safe {l : Life ρ} (h : Safe L l) (seq : UInt32) : Safe L (l.step L (.get seq)) := by
  simp only [step]
  cases hram : l.ram with
  | none => exact h
  | some ram =>
    simp only [answer]
    by_cases hin : storeOldestSeq ram ≤ seq ∧ seq < storeNextSeq ram
    · rw [if_pos hin]
      have hask := safe_ask h hram hin.2
      cases hg : storeGet L ram l.flash seq with
      | error e => exact hask
      | ok r =>
        obtain ⟨-, -, -, hrec, hseq⟩ := storeGet_ok_iff.1 hg
        exact safe_serve hask List.mem_cons_self hrec hseq
    · rw [if_neg hin]
      cases hg : storeGet L ram l.flash seq with
      | error e => exact h
      | ok r =>
        obtain ⟨hlt, hge, -⟩ := storeGet_ok_iff.1 hg
        exact absurd ⟨hge, hlt⟩ hin

/-! ## Runs -/

/-- **Every guarded event keeps the invariant.** -/
theorem step_safe {l : Life ρ} (h : Safe L l) (e : Event ρ) (hg : l.Guarded e) :
    Safe L (l.step L e) := by
  cases e with
  | boot fates => exact boot_safe h fates hg
  | append rec up fates => exact append_safe h rec up fates hg
  | get seq => exact get_safe h seq
  | off => exact safe_off h

theorem run_safe {l : Life ρ} (h : Safe L l) {evs : List (Event ρ)} (hg : l.GuardedRun L evs) :
    Safe L (l.run L evs) := by
  induction evs generalizing l with
  | nil => exact h
  | cons e evs ih =>
    rw [run_cons]
    exact ih (step_safe h e hg.1) hg.2

/-- **In a guarded run no seq is served with two records.** -/
theorem served_consistent {fl : Flash} (hf : formatOf fl = L.format) {evs : List (Event ρ)}
    (hg : (start fl).GuardedRun L evs) : ((start fl).run L evs).Consistent :=
  (run_safe (start_safe hf) hg).consistent

/-- Two appends and a restart, each seq read before and after it. -/
def calm : List (Event SntlRecord) :=
  [.boot [], .append record₀ 30000 [], .get 0, .append record₀ 60000 [], .get 1, .off, .boot [],
    .get 0, .get 1]

theorem served_consistent_calm : ((start flash₀).run sntlLayout calm).Consistent :=
  served_consistent (formatOf_migrated _) (by decide)

/-- The counters of the first append are refused, its record is read, and after a restart
the next record gets the same seq. -/
def refusal : List (Event SntlRecord) :=
  [.boot [], .append record₀ 30000 [.ok, .fail 0], .get 0, .off, .boot [],
    .append { record₀ with headcount := 1 } 30000 [], .get 0]

/-- **Unguarded, a seq is served with two records.** -/
theorem served_twice : formatOf flash₀ = sntlLayout.format ∧
    ¬ ((start flash₀).run sntlLayout refusal).Consistent := by
  refine ⟨formatOf_migrated _, fun h => ?_⟩
  have h0 : (0, { record₀ with ts := 30 }) ∈ ((start flash₀).run sntlLayout refusal).served := by
    decide
  have h1 : (0, { record₀ with ts := 30, headcount := 1 }) ∈
      ((start flash₀).run sntlLayout refusal).served := by
    decide
  exact absurd (h _ _ _ h0 h1) (by decide)

end Life

end PresenceNode
