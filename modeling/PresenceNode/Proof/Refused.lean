import PresenceNode.Proof.Ring
import PresenceNode.Spec.Refused

/-!
# Failed appends and failed boots

* `storeAppend_failed`: an append that fails has done nothing, or has moved the counters.
* `failed_append_iff`: in every life, a failed append changes nothing exactly when it is the
  write of its record that fails; `failed_append_counts` is one whose counters are refused.
* `storeInit_failed`: which failures of a boot leave the file system unmounted.
* `failed_boot_iff`: after a failed boot nothing is recorded exactly when it failed before the
  file system was mounted, or mounting it again; `failed_boot_records` is a boot whose erase is
  refused.
-/

namespace PresenceNode

variable {ρ : Type} {L : Layout ρ}

/-! ## A failed append -/

/-- **How an append fails**: at its record, with nothing done, or at the counters, which have
moved on. -/
theorem storeAppend_failed {ram ram' : Ram} {rec out : ρ} {up : ℕ} {fl fl' : Flash}
    {fs fs' : List Fate} {rc : ℤ}
    (h : (storeAppend L ram rec up).run fl fs = .ret (rc, ram', out) fl' fs') :
    (countersRefused ram fs = true ∧ rc < 0 ∧ ram' = ram.bump up) ∨
      (countersRefused ram fs = false ∧ (rc < 0 → ram' = ram ∧ fl' = fl)) := by
  have hends := (storeAppend_ret h).2
  have hparts := h
  unfold storeAppend nvsWrite at hparts
  simp only [L.ts_stamp] at hparts
  obtain ⟨err, fl₁, fs₁, h1, hrest⟩ := Durable.bind_ret_iff.1 hparts
  cases hm : ram.mounted with
  | false =>
    have hcounters : countersRefused ram fs = false := by
      unfold countersRefused
      split
      · exact hm
      · rfl
    refine .inr ⟨hcounters, fun hneg => ?_⟩
    rcases hends with ⟨-, hsame⟩ | ⟨hmount, -⟩
    · exact hsame
    · rw [hm] at hmount
      exact Bool.noConfusion hmount
  | true =>
    rw [hm, if_pos rfl] at h1
    rcases Durable.op_ret_fates h1 with ⟨rfl, rfl, rfl, -⟩ | ⟨rfl, rfl, -⟩ | ⟨e, rfl, hneg, rfl⟩
    · -- no fate left: both writes take effect
      rw [storeAppend_returns hm] at h
      simp only [Outcome.ret.injEq, Prod.mk.injEq] at h
      exact .inr ⟨rfl, fun hneg => by omega⟩
    · -- the record is in, and the counters decide
      rw [if_neg (by omega)] at hrest
      obtain ⟨err, fl₂, fs₂, h2, hlast⟩ := Durable.bind_ret_iff.1 hrest
      simp only [Durable.run_pure, Outcome.ret.injEq, Prod.mk.injEq] at hlast
      obtain ⟨⟨rfl, rfl, rfl⟩, rfl, -⟩ := hlast
      simp only [hm, if_true] at h2
      rcases Durable.op_ret_fates h2 with ⟨rfl, -, rfl, -⟩ | ⟨rfl, rfl, -⟩ | ⟨e, rfl, hneg, -⟩
      · exact .inr ⟨rfl, fun h0 => absurd h0 (by decide)⟩
      · exact .inr ⟨rfl, fun h0 => absurd h0 (by decide)⟩
      · rw [if_pos hneg]
        exact .inl ⟨hm, hneg, rfl⟩
    · rw [if_pos hneg] at hrest
      simp only [Durable.run_pure, Outcome.ret.injEq, Prod.mk.injEq] at hrest
      exact .inr ⟨rfl, fun _ => ⟨hrest.1.2.1.symm, hrest.2.1.symm⟩⟩

namespace Life

theorem unchanged_refl (l : Life ρ) : Unchanged L l l :=
  ⟨⟨rfl, rfl, fun _ => rfl⟩, rfl, fun _ => ⟨rfl, rfl, fun _ => rfl⟩⟩

/-- A counter that has moved on shows. -/
theorem next_bump (ram : Ram) (up : ℕ) : storeNextSeq (ram.bump up) ≠ storeNextSeq ram := by
  intro h
  have hnat := congrArg UInt32.toNat h
  have hlt := ram.counters.nextSeq.toNat_lt
  simp only [storeNextSeq, Ram.bump, UInt32.toNat_add, UInt32.toNat_one] at hnat
  omega

/-- **When a failed append changes nothing.** In the life of any store, an append that returns a
negative value leaves `store_next_seq`, `store_oldest_seq`, the saved clock and every `store_get`
as they were, now and after any restart, exactly when it is not the write of the counters that
fails. -/
theorem failed_append_iff (L : Layout ρ) (fl₀ : Flash) (evs : List (Event ρ)) {ram ram' : Ram}
    (hram : ((start fl₀).run L evs).ram = some ram) {rec out : ρ} {up : ℕ} {rc : ℤ} {fl' : Flash}
    {fs fs' : List Fate} (hrun : (storeAppend L ram rec up).run ((start fl₀).run L evs).flash fs =
      .ret (rc, ram', out) fl' fs') :
    (rc < 0 → Unchanged L ((start fl₀).run L evs)
        (((start fl₀).run L evs).step L (.append rec up fs))) ↔
      countersRefused ram fs = false := by
  generalize (start fl₀).run L evs = l at hram hrun
  have hstep : l.step L (.append rec up fs) = { l with flash := fl', ram := some ram' } := by
    unfold step
    simp only [hram, hrun]
  rw [hstep]
  rcases storeAppend_failed hrun with ⟨hr, hneg, rfl⟩ | ⟨hr, hsame⟩
  · -- the counter shows
    rw [hr]
    constructor
    · intro h
      have hnext := (h hneg).now.next
      rw [hram] at hnext
      exact absurd (Option.some.inj hnext) (next_bump ram up)
    · intro h
      exact Bool.noConfusion h
  · refine ⟨fun _ => hr, fun _ hneg => ?_⟩
    obtain ⟨rfl, rfl⟩ := hsame hneg
    rw [← hram]
    exact unchanged_refl l

/-- A store with a record in it, and the second one is refused: seq 0 is still read. -/
theorem failed_append_record :
    storeGet sntlLayout ram₁ flash₁ 0 = .ok (stamped sntlLayout ram₀ 30000 record₀) ∧
      Unchanged sntlLayout ((start flash₀).run sntlLayout [.boot [], .append record₀ 30000 []])
        (((start flash₀).run sntlLayout [.boot [], .append record₀ 30000 []]).step sntlLayout
          (.append record₀ 60000 [.fail 4])) := by
  have hrun : (storeAppend sntlLayout ram₁ record₀ 60000).run
      ((start flash₀).run sntlLayout [.boot [], .append record₀ 30000 []]).flash [.fail 4] =
        .ret (-5, ram₁, stamped sntlLayout ram₁ 60000 record₀) flash₁ [] := rfl
  refine ⟨by decide +kernel, ?_⟩
  exact (failed_append_iff sntlLayout flash₀ [.boot [], .append record₀ 30000 []] rfl hrun).2 rfl
    (by decide)

/-- **The counters are refused**: the append failed, and the next seq is 1. -/
theorem failed_append_counts : ¬ ∀ (fl₀ : Flash) (evs : List (Event SntlRecord)) (ram ram' : Ram)
    (rec out : SntlRecord) (up : ℕ) (rc : ℤ) (fl' : Flash) (fs fs' : List Fate),
    ((start fl₀).run sntlLayout evs).ram = some ram →
    (storeAppend sntlLayout ram rec up).run ((start fl₀).run sntlLayout evs).flash fs =
      .ret (rc, ram', out) fl' fs' → rc < 0 →
    Unchanged sntlLayout ((start fl₀).run sntlLayout evs)
      (((start fl₀).run sntlLayout evs).step sntlLayout (.append rec up fs)) := by
  intro hall
  have hrun : (storeAppend sntlLayout ram₀ record₀ 0).run
      ((start flash₀).run sntlLayout [.boot []]).flash [.ok, .fail 4] =
        .ret (-5, ram₀.bump 0, stamped sntlLayout ram₀ 0 record₀)
          (putRec sntlLayout flash₀ (stamped sntlLayout ram₀ 0 record₀)) [] := rfl
  have hnext := (hall _ _ _ _ _ _ _ _ _ _ _ rfl hrun (by decide)).now.next
  exact absurd (Option.some.inj hnext) (next_bump ram₀ 0)

end Life

/-! ## Appends after a boot -/

/-- Without a file system every append is refused. -/
theorem appends_unmounted {ram : Ram} (hm : ram.mounted = false) (fl : Flash)
    (calls : List (AppendCall ρ)) :
    (∀ rc ∈ (appends L ram fl calls).1, rc < 0) ∧ (appends L ram fl calls).2 = fl := by
  induction calls with
  | nil => exact ⟨fun _ h => absurd h List.not_mem_nil, rfl⟩
  | cons c calls ih =>
    have hrun : (storeAppend L ram c.record c.up).run fl c.fates =
        .ret (-eacces, ram, stamped L ram c.up c.record) fl c.fates := by
      unfold storeAppend nvsWrite
      rw [hm]
      rfl
    unfold appends
    rw [hrun]
    refine ⟨fun rc hrc => ?_, ih.2⟩
    rcases List.mem_cons.1 hrc with rfl | hrc
    · decide
    · exact ih.1 rc hrc

/-- **Nothing is recorded** exactly when there is no file system: a mounted one takes a record. -/
theorem recordsNothing_iff (L : Layout ρ) (ram : Ram) (fl : Flash) :
    RecordsNothing L ram fl ↔ ram.mounted = false := by
  constructor
  · intro h
    by_contra hm
    have hm : ram.mounted = true := by simpa using hm
    have hzero := (h [⟨L.ofImage [], 0, []⟩]).1 0 (by
      unfold appends
      rw [storeAppend_returns hm]
      exact List.mem_cons_self)
    omega
  · exact fun hm calls => appends_unmounted hm fl calls

/-! ## How a boot fails -/

/-- `k` operations have taken effect, and `fs'` is left of the fates. -/
def Taken (fs : List Fate) (k : ℕ) (fs' : List Fate) : Prop :=
  fs.drop k = fs' ∧ ∀ f ∈ fs.take k, f = .ok

theorem taken_zero (fs : List Fate) : Taken fs 0 fs := ⟨rfl, fun _ h => absurd h List.not_mem_nil⟩

theorem taken_succ {fs fs₁ fs₂ : List Fate} {k : ℕ} (h : Taken fs k fs₁) (ht : Takes fs₁ fs₂) :
    Taken fs (k + 1) fs₂ := by
  obtain ⟨hdrop, hok⟩ := h
  have htail : fs.drop (k + 1) = fs₁.tail := by rw [← hdrop, List.tail_drop]
  have hhead : fs[k]? = fs₁.head? := by rw [← hdrop, List.head?_drop]
  have htake : ∀ f ∈ fs.take (k + 1), f ∈ fs.take k ∨ fs₁.head? = some f := by
    intro f hf
    rw [List.take_add_one, List.mem_append, hhead, Option.mem_toList] at hf
    exact hf
  rcases ht with rfl | ⟨rfl, rfl⟩
  · refine ⟨htail, fun f hf => ?_⟩
    rcases htake f hf with hf | hf
    · exact hok f hf
    · exact (Option.some.inj hf).symm
  · refine ⟨htail, fun f hf => ?_⟩
    rcases htake f hf with hf | hf
    · exact hok f hf
    · simp at hf

/-- The operation that fails is the one after those that took effect. -/
theorem taken_fail {fs rest : List Fate} {k e : ℕ} (h : Taken fs k (.fail e :: rest)) :
    effects fs = k := by
  obtain ⟨hdrop, hok⟩ := h
  have hlen : k ≤ fs.length := by
    by_contra hlt
    rw [List.drop_eq_nil_of_le (by omega)] at hdrop
    simp at hdrop
  unfold effects
  rw [← List.take_append_drop k fs, List.takeWhile_append_of_pos (by simpa using hok), hdrop]
  simp [hlen]

/-- A failure after `k` operations, and whether it leaves a file system. -/
theorem failed_at {fs fs₁ : List Fate} {k : ℕ} {m : Bool} (h : Taken fs k fs₁)
    (hf : ∃ e rest, fs₁ = .fail e :: rest) (hm : m = false ↔ k < 3 ∨ k = 4) :
    m = false ↔ effects fs < 3 ∨ effects fs = 4 := by
  obtain ⟨e, rest, rfl⟩ := hf
  rw [taken_fail h]
  exact hm

/-- How a format change fails: the erase is refused, the file system is not mounted again, or one
of the three entries is not written. -/
theorem storeMigrate_failed {ram ram' : Ram} (hm : ram.mounted = true) {fl fl' : Flash}
    {fs fs₃ fs' : List Fate} {rc : ℤ} (hrc : rc ≠ 0) (t3 : Taken fs 3 fs₃)
    (h : (storeMigrate L ram).run fl fs₃ = .ret (rc, ram') fl' fs') :
    ram'.mounted = false ↔ effects fs < 3 ∨ effects fs = 4 := by
  unfold storeMigrate nvsClear nvsTouch at h
  rcases op_ends (c := id) h with ⟨hf, -, rfl⟩ | ⟨fs₄, ht, h⟩
  · exact failed_at t3 hf (by simp [hm])
  have t4 := taken_succ t3 ht
  rcases op_ends (c := id) h with ⟨hf, -, rfl⟩ | ⟨fs₅, ht, h⟩
  · exact failed_at t4 hf (by simp)
  have t5 := taken_succ t4 ht
  rcases write_ends h with ⟨hf, -, rfl⟩ | ⟨fs₆, ht, h⟩
  · exact failed_at t5 hf (by simp)
  have t6 := taken_succ t5 ht
  rcases write_ends h with ⟨hf, -, rfl⟩ | ⟨fs₇, ht, h⟩
  · exact failed_at t6 hf (by simp)
  have t7 := taken_succ t6 ht
  rcases write_ends h with ⟨hf, -, rfl⟩ | ⟨fs₈, -, h⟩
  · exact failed_at t7 hf (by simp)
  simp only [Durable.run_pure, Outcome.ret.injEq, Prod.mk.injEq] at h
  exact absurd h.1.1.symm hrc

/-- **Which failures of a boot leave no file system**: those of the three operations before the
format is read, and of the mount after the erase. -/
theorem storeInit_failed {fl fl' : Flash} {ram : Ram} {fs fs' : List Fate} {rc : ℤ} (hrc : rc ≠ 0)
    (h : (storeInit L).run fl fs = .ret (rc, ram) fl' fs') :
    ram.mounted = false ↔ effects fs < 3 ∨ effects fs = 4 := by
  unfold storeInit nvsTouch at h
  have t0 := taken_zero fs
  rcases op_ends (c := fun _ => -enodev) h with ⟨hf, -, rfl⟩ | ⟨fs₁, ht, h⟩
  · exact failed_at t0 hf (by decide)
  have t1 := taken_succ t0 ht
  rcases op_ends (c := id) h with ⟨hf, -, rfl⟩ | ⟨fs₂, ht, h⟩
  · exact failed_at t1 hf (by decide)
  have t2 := taken_succ t1 ht
  rcases op_ends (c := id) h with ⟨hf, -, rfl⟩ | ⟨fs₃, ht, h⟩
  · exact failed_at t2 hf (by decide)
  rw [Durable.run_get_bind] at h
  split_ifs at h
  · exact storeMigrate_failed rfl hrc (taken_succ t2 ht) h
  · simp only [Durable.run_pure, Outcome.ret.injEq, Prod.mk.injEq] at h
    exact absurd h.1.1.symm hrc

/-- **When nothing is recorded after a failed boot.** Whatever the partition holds: after a
`store_init` that returned an error, every append of that boot fails and the flash stays as it
is, exactly when the operation that failed is one of the first three (readiness, page info,
mount) or the fifth (the mount after the erase). -/
theorem failed_boot_iff (L : Layout ρ) {fl fl' : Flash} {ram : Ram} {fs fs' : List Fate} {rc : ℤ}
    (hrc : rc ≠ 0) (h : (storeInit L).run fl fs = .ret (rc, ram) fl' fs') :
    RecordsNothing L ram fl' ↔ effects fs < 3 ∨ effects fs = 4 := by
  rw [recordsNothing_iff]
  exact storeInit_failed hrc h

/-- The partition of an older firmware is erased and then cannot be mounted. -/
theorem failed_boot_remount : ∃ ram fl fs rc, (storeInit sntlLayout).run oldFlash
    [.ok, .ok, .ok, .ok, .fail 4] = .ret (rc, ram) fl fs ∧ RecordsNothing sntlLayout ram fl := by
  have hf : formatOf oldFlash ≠ sntlLayout.format := by decide
  have hrun := storeInit_mounted sntlLayout oldFlash [.ok, .fail 4]
  rw [if_pos hf] at hrun
  exact ⟨_, _, _, -5, hrun, (failed_boot_iff sntlLayout (by decide) hrun).2 (by decide)⟩

/-- **The erase is refused**, and records are appended all the same. -/
theorem failed_boot_records : ¬ ∀ (fl fl' : Flash) (ram : Ram) (fs fs' : List Fate) (rc : ℤ),
    rc ≠ 0 → (storeInit sntlLayout).run fl fs = .ret (rc, ram) fl' fs' →
      RecordsNothing sntlLayout ram fl' := by
  intro hall
  have hf : formatOf oldFlash ≠ sntlLayout.format := by decide
  have hrun := storeInit_mounted sntlLayout oldFlash [.fail 4]
  rw [if_pos hf] at hrun
  have hm := (recordsNothing_iff _ _ _).1 (hall oldFlash oldFlash _ _ [] (-5) (by decide) hrun)
  exact absurd hm (by simp)

end PresenceNode
