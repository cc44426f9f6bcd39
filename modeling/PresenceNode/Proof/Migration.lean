import PresenceNode.Proof.StoreOps
import Mathlib.Tactic.IntervalCases

/-!
# A format change under power loss

A boot that finds another record format erases the partition and writes the format, the
floor and the counters anew. Its operations in order: readiness, page info, mount,
clear, remount, format, floor, counters.

* `storeInit_counters`: the counters a boot starts from are those in flash.
* `cut_same`, `cut_early`, `cut_erased`, `cut_late`: the flash after `k` operations.
* `seq_kept_iff`: the seq counter survives a cut exactly outside the window in which no
  counters entry exists.
-/

namespace PresenceNode

open LittleEndian Durable

variable {ρ : Type} {L : Layout ρ}

/-- A boot that returns 0 takes its counters from flash, whatever the format. -/
theorem storeInit_counters {fl fl' : Flash} {ram : Ram} {fs fs' : List Fate}
    (h : (storeInit L).run fl fs = .ret (0, ram) fl' fs') : ram.counters = metaOf fl := by
  rcases storeInit_ret h with ⟨-, -, rfl⟩ | ⟨-, -, rfl⟩
  · rfl
  · exact metaOf_migrated (L := L) _

/-- A boot once its first three operations are done. -/
theorem storeInit_mounted (L : Layout ρ) (fl : Flash) (fs : List Fate) :
    (storeInit L).run fl (.ok :: .ok :: .ok :: fs) = if formatOf fl ≠ L.format
      then (storeMigrate L { Ram.zero with mounted := true, counters := metaOf fl }).run fl fs
      else .ret (0, booted fl) fl fs := by
  have h : (storeInit L).run fl (.ok :: .ok :: .ok :: fs) = (if formatOf fl ≠ L.format
      then storeMigrate L { Ram.zero with mounted := true, counters := metaOf fl }
      else Pure.pure (0, booted fl)).run fl fs := rfl
  rw [h]
  split_ifs
  · rfl
  · rfl

/-- A boot with nothing in its way returns 0. -/
theorem storeInit_returns (L : Layout ρ) (fl : Flash) :
    ∃ fs ram fl' fs', (storeInit L).run fl fs = .ret (0, ram) fl' fs' := by
  refine ⟨[.ok, .ok, .ok], ?_⟩
  rw [storeInit_mounted]
  by_cases hf : formatOf fl ≠ L.format
  · rw [if_pos hf]
    exact ⟨_, _, _, rfl⟩
  · rw [if_neg hf]
    exact ⟨_, _, _, rfl⟩

/-! ## The flash at each cut -/

/-- The power lost in a boot that has nothing to change. -/
theorem cut_same {fl : Flash} (hf : formatOf fl = L.format) (k : ℕ) :
    ((storeInit L).run fl (cutAfter k)).state = fl := by
  rcases storeInit_same hf (cutAfter k) with ⟨rc, fs', -, h⟩ | h | ⟨fs', h⟩
  · rw [h]; rfl
  · rw [h]; rfl
  · rw [h]; rfl

/-- The power lost before the erase. -/
theorem cut_early (fl : Flash) {k : ℕ} (hk : k ≤ 3) :
    ((storeInit L).run fl (cutAfter k)).state = fl := by
  by_cases hf : formatOf fl = L.format
  · exact cut_same hf k
  · interval_cases k
    · rfl
    · rfl
    · rfl
    · rw [show cutAfter 3 = .ok :: .ok :: .ok :: cutAfter 0 from rfl, storeInit_mounted,
        if_pos hf]
      rfl

/-- The power lost between the erase and the counters: there are no counters. -/
theorem cut_erased {fl : Flash} (hf : formatOf fl ≠ L.format) {k : ℕ} (h4 : 4 ≤ k) (h7 : k ≤ 7) :
    ((storeInit L).run fl (cutAfter k)).state nvsIdMeta = none := by
  obtain ⟨j, rfl⟩ := Nat.exists_eq_add_of_le' (show 3 ≤ k by omega)
  rw [show cutAfter (j + 3) = .ok :: .ok :: .ok :: cutAfter j from rfl, storeInit_mounted,
    if_pos hf]
  obtain ⟨h1, h4⟩ : 1 ≤ j ∧ j ≤ 4 := by omega
  interval_cases j
  · rfl
  · rfl
  · rfl
  · rfl

/-- The power lost once the counters are written. -/
theorem cut_late {fl : Flash} (hf : formatOf fl ≠ L.format) {k : ℕ} (hk : 8 ≤ k) :
    ((storeInit L).run fl (cutAfter k)).state = migrated L (metaOf fl) := by
  obtain ⟨j, rfl⟩ := Nat.exists_eq_add_of_le' hk
  rw [show cutAfter (j + 8) = .ok :: .ok :: .ok :: .ok :: .ok :: .ok :: .ok :: .ok :: cutAfter j
    from rfl, storeInit_mounted, if_pos hf]
  rfl

/-! ## The counter -/

/-- The boot that follows a boot cut at `k` hands out no seq below `N`, however its own flash
operations go, if it returns 0. -/
def KeepsSeq (L : Layout ρ) (fl : Flash) (N : UInt32) (k : ℕ) : Prop :=
  ∀ fs ram fl' fs',
    (storeInit L).run ((storeInit L).run fl (cutAfter k)).state fs = .ret (0, ram) fl' fs' →
      N ≤ storeNextSeq ram

/-- It is the counters entry the cut leaves that decides. -/
theorem keepsSeq_iff {fl : Flash} {N : UInt32} {k : ℕ} :
    KeepsSeq L fl N k ↔ N ≤ (metaOf ((storeInit L).run fl (cutAfter k)).state).nextSeq := by
  constructor
  · intro h
    obtain ⟨fs, ram, fl', fs', hrun⟩ :=
      storeInit_returns L ((storeInit L).run fl (cutAfter k)).state
    have hN := h fs ram fl' fs' hrun
    rwa [storeNextSeq, storeInit_counters hrun] at hN
  · intro h fs ram fl' fs' hrun
    rw [storeNextSeq, storeInit_counters hrun]
    exact h

/-- Without an entry the counters start from 0. -/
theorem metaOf_none {fl : Flash} (h : fl nvsIdMeta = none) : metaOf fl = ⟨0, 0⟩ := by
  unfold metaOf nvsRead
  rw [if_pos rfl, h]
  exact if_pos (by decide)

/-- **The counter survives a cut** exactly when there was nothing to lose, nothing to
migrate, or the cut is outside the window from the erase to the counters' write. -/
theorem seq_kept_iff (L : Layout ρ) {fl : Flash} {m : Meta} (hm : fl nvsIdMeta = some m.image)
    (k : ℕ) :
    KeepsSeq L fl m.nextSeq k ↔
      m.nextSeq = 0 ∨ formatOf fl = L.format ∨ k ≤ 3 ∨ 8 ≤ k := by
  have hmeta : metaOf fl = m := metaOf_some hm
  rw [keepsSeq_iff]
  by_cases hf : formatOf fl = L.format
  · rw [cut_same hf, hmeta]
    exact ⟨fun _ => Or.inr (Or.inl hf), fun _ => UInt32.le_refl _⟩
  by_cases h3 : k ≤ 3
  · rw [cut_early fl h3, hmeta]
    exact ⟨fun _ => Or.inr (Or.inr (Or.inl h3)), fun _ => UInt32.le_refl _⟩
  by_cases h8 : 8 ≤ k
  · rw [cut_late hf h8, metaOf_migrated, hmeta]
    exact ⟨fun _ => Or.inr (Or.inr (Or.inr h8)), fun _ => UInt32.le_refl _⟩
  -- between the erase and the counters the next boot starts from 0
  rw [metaOf_none (cut_erased hf (by omega) (by omega))]
  constructor
  · intro h
    exact Or.inl (UInt32.le_antisymm h UInt32.zero_le)
  · rintro (h | h | h | h)
    · exact UInt32.le_of_eq h
    · exact absurd h hf
    · exact absurd h h3
    · exact absurd h h8

/-- A partition an older firmware left: records of 20 bytes, and seq 5 to be handed out
next. -/
def oldFlash : Flash :=
  Function.update (putMeta (fun _ => none) ⟨5, 150⟩) nvsIdFormat (some (enc 2 20))

/-- The migration of `oldFlash` keeps the counter when it is not cut. -/
theorem seq_kept_old : KeepsSeq sntlLayout oldFlash 5 8 :=
  (seq_kept_iff sntlLayout (m := ⟨5, 150⟩) rfl 8).2 (by decide)

/-- Cut right after the erase, it forgets the counter. -/
theorem seq_lost_old : oldFlash nvsIdMeta = some (Meta.image ⟨5, 150⟩) ∧
    ¬ KeepsSeq sntlLayout oldFlash 5 4 := by
  refine ⟨rfl, ?_⟩
  have hf : formatOf oldFlash ≠ sntlLayout.format := by decide
  rw [keepsSeq_iff, metaOf_none (cut_erased hf (by decide) (by decide))]
  decide

end PresenceNode
