import PresenceNode.Proof.Ring

/-!
# An append under power loss

* `append_cut_safe`: below the last seq, and as long as no write of the counters was
  refused, a cut append costs at most the slot it was going to.
* `history_long`: a history reaches every counter.
* `append_cut_unsafe`: at the last seq the counter wraps, and after a refused write of the
  counters it falls back.
-/

namespace PresenceNode

variable {ρ : Type} {L : Layout ρ}

/-- **What a cut append may cost.** `led` was appended before, `rec` is the record whose
append met the fates `fs`, and `fl'` and `ram'` are what the next boot leaves. -/
structure CutSafe (L : Layout ρ) (ram : Ram) (led : Ledger ρ) (rec : ρ) (up : ℕ)
    (fs : List Fate) (fl' : Flash) (ram' : Ram) : Prop where
  /-- The counter is the old one or one more. -/
  next : (storeNextSeq ram').toNat = led.next ∨ (storeNextSeq ram').toNat = led.next + 1
  /-- Every other slot is still readable. -/
  kept : ∀ s : UInt32, max led.floor (led.next + 1 - storeCapacity) ≤ s.toNat →
    s.toNat < led.next → ∃ r, led.entry s.toNat = some r ∧ storeGet L ram' fl' s = .ok r
  /-- Nothing else is served, and the new record only once it counts. -/
  served : ∀ (s : UInt32) (r : ρ), storeGet L ram' fl' s = .ok r →
    (s.toNat < led.next ∧ led.entry s.toNat = some r) ∨
      (s.toNat = led.next ∧ countersSaved fs = true ∧ r = appended L led.next ram rec up)

/-- The slots an append does not go to. -/
theorem kept_iff {led : Ledger ρ} {n : ℕ} :
    max led.floor (led.next + 1 - storeCapacity) ≤ n ↔
      led.floor ≤ n ∧ led.next + 1 ≤ n + storeCapacity := by
  rw [max_le_iff, Nat.sub_le_iff_le_add]

/-- The counters were not saved: the ledger is as it was. -/
theorem cutSafe_tear {ram ram' : Ram} {led : Ledger ρ} {rec : ρ} {up : ℕ} {fs : List Fate}
    {fl' : Flash} (h : Sound L fl' ram' led.tear) : CutSafe L ram led rec up fs fl' ram' where
  next := Or.inl ((sound_next h).trans led.tear_next)
  kept := by
    intro s hlo hhi
    obtain ⟨hfl, hcap⟩ := kept_iff.1 hlo
    refine sound_held h (led.oldest_le_iff.2 ⟨hfl, by omega⟩) hhi (fun _ => ?_)
    rw [Ledger.tear_next]
    omega
  served := by
    intro s r hg
    obtain ⟨-, hhi, hr⟩ := sound_get h hg
    exact Or.inl ⟨hhi, hr⟩

/-- The counters were saved: the record counts. -/
theorem cutSafe_push {ram ram' : Ram} {led : Ledger ρ} {rec : ρ} {up : ℕ} {fs : List Fate}
    {fl' : Flash} (h : Sound L fl' ram' (led.push (appended L led.next ram rec up)))
    (hs : countersSaved fs = true) : CutSafe L ram led rec up fs fl' ram' where
  next := Or.inr (sound_next h)
  kept := by
    intro s hlo hhi
    obtain ⟨hfl, hcap⟩ := kept_iff.1 hlo
    obtain ⟨r, hr, hg⟩ := sound_held h (s := s) ((Ledger.oldest_le_iff _).2 ⟨hfl, hcap⟩)
      (by rw [Ledger.push_next]; omega) (by simp)
    rw [led.entry_push_ne _ hhi.ne] at hr
    exact ⟨r, hr, hg⟩
  served := by
    intro s r hg
    obtain ⟨-, hhi, hr⟩ := sound_get h hg
    rw [Ledger.push_next] at hhi
    -- only the new seq has a new entry
    by_cases hn : s.toNat = led.next
    · rw [hn, led.entry_push_self, Option.some.injEq] at hr
      exact Or.inr ⟨hn, hs, hr.symm⟩
    · rw [led.entry_push_ne _ hn] at hr
      exact Or.inl ⟨by omega, hr⟩

/-- **A cut append is safe** in every history without a refused write of the counters, as
long as the counter is below the last seq. -/
theorem append_cut_safe {fl fl₁ fl' : Flash} {ram ram' : Ram} {led : Ledger ρ} {rec : ρ} {up : ℕ}
    {fs fs₁ fs' : List Fate} (H : History {.cut, .recordRefused} L fl ram led)
    (hlt : led.next < 2 ^ 32 - 1) (run : (storeAppend L ram rec up).run fl fs = .cut fl₁)
    (boot : (storeInit L).run fl₁ fs₁ = .ret (0, ram') fl' fs') :
    CutSafe L ram led rec up fs fl' ram' := by
  have hafter := history_sound (by simp) (H.cutAppend (by simp) hlt run boot)
  by_cases hs : countersSaved fs = true
  · rw [if_pos hs] at hafter
    exact cutSafe_push hafter hs
  · rw [if_neg hs] at hafter
    exact cutSafe_tear hafter

/-- A second append cut between its two writes: seq 0 is still there, seq 1 is not served. -/
theorem append_cut_safe_second :
    ∃ ram' fl', CutSafe sntlLayout ram₁
      ((Ledger.fresh 0 0).push (appended sntlLayout 0 ram₀ record₀ 30000)) record₀ 60000
      [.ok, .cut false] fl' ram' := by
  have H := history_append
    (show Accident.countersRefused ∉ ({.cut, .recordRefused} : Set Accident) by simp)
    (history_empty _ sntlLayout) (by decide) record₀ 30000
  obtain ⟨fs, ram', fl', fs', boot⟩ := storeInit_returns sntlLayout
    (putRec sntlLayout flash₁ (stamped sntlLayout ram₁ 60000 record₀))
  exact ⟨ram', fl', append_cut_safe H (by decide) rfl boot⟩

/-! ## Outside these histories -/

/-- **Every counter is reached**: appends take the store to each `k` below the wrap. -/
theorem history_long (A : Set Accident) (hA : .countersRefused ∉ A) (L : Layout ρ) {k : ℕ}
    (hk : k ≤ 2 ^ 32 - 1) : ∃ fl ram led, History A L fl ram led ∧ led.next = k := by
  induction k with
  | zero => exact ⟨_, _, _, history_empty A L, rfl⟩
  | succ k ih =>
    obtain ⟨fl, ram, led, H, hnext⟩ := ih (by omega)
    exact ⟨_, _, _, history_append hA H (by omega) (L.ofImage []) 0, by
      rw [Ledger.push_next, hnext]⟩

/-- **At the last seq** the counters are saved as 0. -/
theorem cut_wraps {fl : Flash} {ram : Ram} {led : Ledger ρ} (h : Sound L fl ram led)
    (hlast : led.next = 2 ^ 32 - 1) (rec : ρ) (up : ℕ) :
    ∃ fl₁ fs₁ ram' fl' fs', (storeAppend L ram rec up).run fl [.ok, .cut true] = .cut fl₁ ∧
      (storeInit L).run fl₁ fs₁ = .ret (0, ram') fl' fs' ∧ (storeNextSeq ram').toNat = 0 := by
  have run : (storeAppend L ram rec up).run fl [.ok, .cut true] =
      .cut (putMeta (putRec L fl (stamped L ram up rec)) (ram.bump up).counters) := by
    unfold storeAppend nvsWrite
    simp only [h.mounted, if_true, L.ts_stamp]
    rfl
  obtain ⟨fs₁, ram', fl', fs', boot⟩ := storeInit_returns L
    (putMeta (putRec L fl (stamped L ram up rec)) (ram.bump up).counters)
  refine ⟨_, fs₁, ram', fl', fs', run, boot, ?_⟩
  unfold storeNextSeq
  rw [storeInit_counters boot, metaOf_putMeta]
  show (ram.counters.nextSeq + 1).toNat = 0
  rw [UInt32.toNat_add, UInt32.toNat_one, h.next, hlast]
  omega

/-- The flash after a first append whose counters were refused. -/
abbrev flashRefused : Flash := putRec sntlLayout flash₀ (stamped sntlLayout ram₀ 0 record₀)

/-- **After a refused write of the counters** flash knows of no append. -/
theorem cut_falls_back : ∃ fs₁ ram' fl' fs',
    (storeInit sntlLayout).run flashRefused fs₁ = .ret (0, ram') fl' fs' ∧
      (storeNextSeq ram').toNat = 0 := by
  obtain ⟨fs₁, ram', fl', fs', boot⟩ := storeInit_returns sntlLayout flashRefused
  refine ⟨fs₁, ram', fl', fs', boot, ?_⟩
  unfold storeNextSeq
  rw [storeInit_counters boot, metaOf_putRec, metaOf_migrated]
  rfl

/-- **A cut append is not safe** at the last seq, where the counter wraps to 0, nor after a
refused write of the counters, where the boot falls back behind it. -/
theorem append_cut_unsafe :
    (¬ ∀ (fl fl₁ fl' : Flash) (ram ram' : Ram) (led : Ledger SntlRecord) (rec : SntlRecord)
        (up : ℕ) (fs fs₁ fs' : List Fate), History ∅ sntlLayout fl ram led →
        (storeAppend sntlLayout ram rec up).run fl fs = .cut fl₁ →
        (storeInit sntlLayout).run fl₁ fs₁ = .ret (0, ram') fl' fs' →
        CutSafe sntlLayout ram led rec up fs fl' ram') ∧
    (¬ ∀ (fl fl₁ fl' : Flash) (ram ram' : Ram) (led : Ledger SntlRecord) (rec : SntlRecord)
        (up : ℕ) (fs fs₁ fs' : List Fate), History {.countersRefused} sntlLayout fl ram led →
        led.next < 2 ^ 32 - 1 → (storeAppend sntlLayout ram rec up).run fl fs = .cut fl₁ →
        (storeInit sntlLayout).run fl₁ fs₁ = .ret (0, ram') fl' fs' →
        CutSafe sntlLayout ram led rec up fs fl' ram') := by
  constructor
  · intro hall
    obtain ⟨fl, ram, led, H, hnext⟩ := history_long ∅ (by simp) sntlLayout (le_refl (2 ^ 32 - 1))
    have hsound := history_sound (by simp) H
    obtain ⟨fl₁, fs₁, ram', fl', fs', run, boot, hzero⟩ := cut_wraps hsound hnext record₀ 0
    have hsafe := (hall _ _ _ _ _ _ _ _ _ _ _ H run boot).next
    omega
  · intro hall
    have run : (storeAppend sntlLayout ram₀ record₀ 0).run flash₀ [.ok, .fail 0] =
        .ret (-1, ram₀.bump 0, stamped sntlLayout ram₀ 0 record₀) flashRefused [] := rfl
    have H := (history_empty {.countersRefused} sntlLayout).halfRefused (by simp) (by decide)
      (by decide) (by decide) run
    have cut : (storeAppend sntlLayout (ram₀.bump 0) record₀ 0).run flashRefused [.cut false] =
        .cut flashRefused := rfl
    obtain ⟨fs₁, ram', fl', fs', boot, hzero⟩ := cut_falls_back
    have hsafe := (hall _ _ _ _ _ _ _ _ _ _ _ H (by decide) cut boot).next
    rw [hzero] at hsafe
    exact absurd hsafe (by decide)

end PresenceNode
