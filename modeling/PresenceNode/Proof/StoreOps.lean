import PresenceNode.Spec.Store

/-!
# What the store's functions do

One lemma for each way a function can end, so that later proofs never unfold it.

* `storeAppend_ret`, `storeAppend_cut`: an append stores the record, then the counters;
  it can fail or be cut before, between and after.
* `op_ends`, `write_ends`: an operation of a boot fails, or the boot goes on.
* `storeInit_same`, `storeInit_ret`: a boot with an unchanged format reads the counters
  back; one with another format leaves `migrated`.
* `storeInit_cut`: what a boot leaves when the power is lost.
* `storeGet_ok_iff`: what a read of a seq answers.
* `storeInit_keeps`, `storeAppend_keeps`: a boot keeps what holds of every record in flash,
  and so does an append of one more such record.
-/

namespace PresenceNode

open LittleEndian

variable {ρ : Type} {L : Layout ρ}

/-! ## NVS ids -/

theorem recId_eq (s : UInt32) : recId s = 256 + s.toNat % storeCapacity := by
  unfold recId
  rw [UInt32.toNat_mod]
  rfl

theorem recId_eq_iff {s t : UInt32} :
    recId s = recId t ↔ s.toNat % storeCapacity = t.toNat % storeCapacity := by
  rw [recId_eq, recId_eq]; omega

/-- A record's slot is none of the three other entries. -/
theorem recId_gt (s : UInt32) : nvsIdMeta ≠ recId s ∧ nvsIdFormat ≠ recId s ∧ nvsIdFloor ≠ recId s := by
  rw [recId_eq]
  simp only [nvsIdMeta, nvsIdFormat, nvsIdFloor]
  omega

/-! ## Entries -/

/-- The flash with a record in its slot. -/
def putRec (L : Layout ρ) (fl : Flash) (r : ρ) : Flash :=
  Function.update fl (recId (L.seq r)) (some (L.image r))

/-- The flash with the counters saved. -/
def putMeta (fl : Flash) (m : Meta) : Flash := Function.update fl nvsIdMeta (some m.image)

/-- The record in a seq's slot, whichever seq it has. -/
def recAt (L : Layout ρ) (fl : Flash) (seq : UInt32) : Option ρ :=
  match fl (recId seq) with
  | none => none
  | some bs => if bs.length = L.size then some (L.ofImage bs) else none

theorem Meta.image_length (m : Meta) : m.image.length = 8 := rfl

theorem Meta.ofImage_image (m : Meta) : Meta.ofImage m.image = m := by
  have h4 : ∀ x : UInt32, UInt32.ofNat (dec (enc 4 x.toNat)) = x := fun x => by
    rw [dec_enc x.toNat_lt, UInt32.ofNat_toNat]
  have key : Meta.ofImage m.image =
      ⟨.ofNat (dec (enc 4 m.nextSeq.toNat)), .ofNat (dec (enc 4 m.baseSec.toNat))⟩ := rfl
  rw [key, h4, h4]

/-- An entry read into a buffer of its own size. -/
theorem nvsRead_some {fl : Flash} {id : ℕ} {bs dst : List UInt8} (h : fl id = some bs)
    (hl : bs.length = dst.length) : nvsRead true fl id dst = ((bs.length : ℤ), bs) := by
  unfold nvsRead
  rw [if_pos rfl, h]
  simp [← hl]

theorem metaOf_some {fl : Flash} {m : Meta} (h : fl nvsIdMeta = some m.image) : metaOf fl = m := by
  unfold metaOf
  rw [nvsRead_some h (by simp [Meta.image_length])]
  simp [Meta.image_length, Meta.ofImage_image]

theorem metaOf_congr {fl fl' : Flash} (h : fl nvsIdMeta = fl' nvsIdMeta) : metaOf fl = metaOf fl' := by
  unfold metaOf nvsRead; rw [h]

theorem formatOf_congr {fl fl' : Flash} (h : fl nvsIdFormat = fl' nvsIdFormat) :
    formatOf fl = formatOf fl' := by
  unfold formatOf nvsRead; rw [h]

theorem floorOf_congr {fl fl' : Flash} (h : fl nvsIdFloor = fl' nvsIdFloor) :
    floorOf fl = floorOf fl' := by
  unfold floorOf nvsRead; rw [h]

theorem formatOf_some {fl : Flash} {x : UInt16} (h : fl nvsIdFormat = some (enc 2 x.toNat)) :
    formatOf fl = x := by
  unfold formatOf
  rw [nvsRead_some h (by simp)]
  simp only
  rw [dec_enc x.toNat_lt, UInt16.ofNat_toNat]

theorem floorOf_some {fl : Flash} {x : UInt32} (h : fl nvsIdFloor = some (enc 4 x.toNat)) :
    floorOf fl = x := by
  unfold floorOf
  rw [nvsRead_some h (by simp)]
  simp only
  rw [dec_enc x.toNat_lt, UInt32.ofNat_toNat]

@[simp] theorem metaOf_putMeta (fl : Flash) (m : Meta) : metaOf (putMeta fl m) = m :=
  metaOf_some (by unfold putMeta; simp)

@[simp] theorem metaOf_putRec (fl : Flash) (r : ρ) : metaOf (putRec L fl r) = metaOf fl :=
  metaOf_congr (by unfold putRec; rw [Function.update_of_ne (recId_gt _).1])

@[simp] theorem formatOf_putMeta (fl : Flash) (m : Meta) : formatOf (putMeta fl m) = formatOf fl :=
  formatOf_congr (by unfold putMeta; rw [Function.update_of_ne (by decide)])

@[simp] theorem formatOf_putRec (fl : Flash) (r : ρ) : formatOf (putRec L fl r) = formatOf fl :=
  formatOf_congr (by unfold putRec; rw [Function.update_of_ne (recId_gt _).2.1])

@[simp] theorem floorOf_putMeta (fl : Flash) (m : Meta) : floorOf (putMeta fl m) = floorOf fl :=
  floorOf_congr (by unfold putMeta; rw [Function.update_of_ne (by decide)])

@[simp] theorem floorOf_putRec (fl : Flash) (r : ρ) : floorOf (putRec L fl r) = floorOf fl :=
  floorOf_congr (by unfold putRec; rw [Function.update_of_ne (recId_gt _).2.2])

@[simp] theorem recAt_putMeta (fl : Flash) (m : Meta) (s : UInt32) :
    recAt L (putMeta fl m) s = recAt L fl s := by
  unfold recAt putMeta; rw [Function.update_of_ne (recId_gt s).1.symm]

/-- The slot a record was put in holds it. -/
theorem recAt_putRec_self (fl : Flash) (r : ρ) {s : UInt32} (h : recId s = recId (L.seq r)) :
    recAt L (putRec L fl r) s = some r := by
  unfold recAt putRec
  rw [h, Function.update_self]
  simp only
  rw [if_pos (L.image_length r), L.ofImage_image]

/-- The other slots are as they were. -/
theorem recAt_putRec_ne (fl : Flash) (r : ρ) {s : UInt32} (h : recId s ≠ recId (L.seq r)) :
    recAt L (putRec L fl r) s = recAt L fl s := by
  unfold recAt putRec; rw [Function.update_of_ne h]

/-! ## `nvs_write` -/

theorem nvsWrite_ret {m : Bool} {id : ℕ} {bs : List UInt8} {fl fl' : Flash} {fs fs' : List Fate}
    {rc : ℤ} (h : (nvsWrite m id bs).run fl fs = .ret rc fl' fs') :
    (rc = 0 ∧ m = true ∧ fl' = Function.update fl id (some bs)) ∨ (rc < 0 ∧ fl' = fl) := by
  unfold nvsWrite at h
  cases m with
  | true =>
    rw [if_pos rfl] at h
    rcases Durable.op_ret h with ⟨h1, h2⟩ | ⟨h1, h2⟩
    · exact Or.inl ⟨h1, rfl, h2⟩
    · exact Or.inr ⟨h1, h2⟩
  | false =>
    simp only [Bool.false_eq_true, if_false, Durable.run_pure, Outcome.ret.injEq] at h
    exact Or.inr ⟨by rw [← h.1]; decide, h.2.1.symm⟩

theorem nvsWrite_cut {m : Bool} {id : ℕ} {bs : List UInt8} {fl fl' : Flash} {fs : List Fate}
    (h : (nvsWrite m id bs).run fl fs = .cut fl') :
    m = true ∧ (fl' = fl ∨ fl' = Function.update fl id (some bs)) := by
  unfold nvsWrite at h
  cases m with
  | true =>
    rw [if_pos rfl] at h
    exact ⟨rfl, Durable.op_cut h⟩
  | false => simp at h

/-! ## `store_init` -/

theorem nvsTouch_ret {fl fl' : Flash} {fs fs' : List Fate} {rc : ℤ}
    (h : nvsTouch.run fl fs = .ret rc fl' fs') : rc ≤ 0 ∧ fl' = fl := by
  unfold nvsTouch at h
  rcases Durable.op_ret h with ⟨h1, h2⟩ | ⟨h1, h2⟩
  · exact ⟨h1.le, h2⟩
  · exact ⟨h1.le, h2⟩

theorem nvsTouch_cut {fl fl' : Flash} {fs : List Fate} (h : nvsTouch.run fl fs = .cut fl') :
    fl' = fl := by
  unfold nvsTouch at h
  rcases Durable.op_cut h with h' | h'
  · exact h'
  · exact h'

/-- The static variables after a boot that found its own format. -/
def booted (fl : Flash) : Ram := ⟨true, metaOf fl, (metaOf fl).baseSec, floorOf fl⟩

/-- The flash once the format entry is written after an erase. -/
def eraseFormat (L : Layout ρ) : Flash :=
  Function.update (fun _ => none) nvsIdFormat (some (enc 2 L.format.toNat))

/-- The flash once the floor entry is written as well. -/
def eraseFloor (L : Layout ρ) (m : Meta) : Flash :=
  Function.update (eraseFormat L) nvsIdFloor (some (enc 4 m.nextSeq.toNat))

/-- The flash a completed migration leaves. -/
def migrated (L : Layout ρ) (m : Meta) : Flash := putMeta (eraseFloor L m) m

@[simp] theorem formatOf_eraseFloor (m : Meta) : formatOf (eraseFloor L m) = L.format :=
  formatOf_some (by unfold eraseFloor eraseFormat; rw [Function.update_of_ne (by decide)]; simp)

@[simp] theorem formatOf_migrated (m : Meta) : formatOf (migrated L m) = L.format := by
  unfold migrated; simp

@[simp] theorem floorOf_migrated (m : Meta) : floorOf (migrated L m) = m.nextSeq := by
  unfold migrated
  rw [floorOf_putMeta]
  exact floorOf_some (by unfold eraseFloor; simp)

@[simp] theorem metaOf_migrated (m : Meta) : metaOf (migrated L m) = m := by
  unfold migrated; simp

/-- A migration keeps no record. -/
theorem recAt_migrated (m : Meta) (s : UInt32) : recAt L (migrated L m) s = none := by
  unfold migrated
  rw [recAt_putMeta]
  unfold recAt eraseFloor eraseFormat
  rw [Function.update_of_ne (recId_gt s).2.2.symm, Function.update_of_ne (recId_gt s).2.1.symm]

/-- One more operation takes effect, with a fate left for it or not. -/
def Takes (fs fs' : List Fate) : Prop := fs = .ok :: fs' ∨ (fs = [] ∧ fs' = [])

/-- An operation that a boot gives up on when it fails: it fails, with the code that is then
returned, or the boot goes on. -/
theorem op_ends {f : Flash → Flash} {c : ℤ → ℤ} {ram ram' : Ram} {k : Durable Flash (ℤ × Ram)}
    {fl fl' : Flash} {fs fs' : List Fate} {rc : ℤ}
    (h : (Durable.op f >>= fun err => if err ≠ 0 then pure (c err, ram) else k).run fl fs =
      .ret (rc, ram') fl' fs') :
    ((∃ e rest, fs = .fail e :: rest) ∧ (∃ err < 0, rc = c err) ∧ ram' = ram) ∨
      ∃ fs₁, Takes fs fs₁ ∧ k.run (f fl) fs₁ = .ret (rc, ram') fl' fs' := by
  obtain ⟨err, fl₁, fs₁, h1, hrest⟩ := Durable.bind_ret_iff.1 h
  rcases Durable.op_ret_fates h1 with ⟨rfl, rfl, rfl, rfl⟩ | ⟨rfl, rfl, rfl⟩ | ⟨e, rfl, hneg, -⟩
  · rw [if_neg (by simp)] at hrest
    exact .inr ⟨[], .inr ⟨rfl, rfl⟩, hrest⟩
  · rw [if_neg (by simp)] at hrest
    exact .inr ⟨fs₁, .inl rfl, hrest⟩
  · rw [if_pos hneg.ne] at hrest
    simp only [Durable.run_pure, Outcome.ret.injEq, Prod.mk.injEq] at hrest
    exact .inl ⟨⟨e, fs₁, rfl⟩, ⟨err, hneg, hrest.1.1.symm⟩, hrest.1.2.symm⟩

/-- A write that a boot gives up on when it fails. -/
theorem write_ends {id : ℕ} {bs : List UInt8} {ram ram' : Ram} {k : Durable Flash (ℤ × Ram)}
    {fl fl' : Flash} {fs fs' : List Fate} {rc : ℤ}
    (h : (nvsWrite true id bs >>= fun err => if err < 0 then pure (-eio, ram) else k).run fl fs =
      .ret (rc, ram') fl' fs') :
    ((∃ e rest, fs = .fail e :: rest) ∧ rc = -eio ∧ ram' = ram) ∨
      ∃ fs₁, Takes fs fs₁ ∧
        k.run (Function.update fl id (some bs)) fs₁ = .ret (rc, ram') fl' fs' := by
  obtain ⟨err, fl₁, fs₁, h1, hrest⟩ := Durable.bind_ret_iff.1 h
  unfold nvsWrite at h1
  rw [if_pos rfl] at h1
  rcases Durable.op_ret_fates h1 with ⟨rfl, rfl, rfl, rfl⟩ | ⟨rfl, rfl, rfl⟩ | ⟨e, rfl, hneg, -⟩
  · rw [if_neg (by omega)] at hrest
    exact .inr ⟨[], .inr ⟨rfl, rfl⟩, hrest⟩
  · rw [if_neg (by omega)] at hrest
    exact .inr ⟨fs₁, .inl rfl, hrest⟩
  · rw [if_pos hneg] at hrest
    simp only [Durable.run_pure, Outcome.ret.injEq, Prod.mk.injEq] at hrest
    exact .inl ⟨⟨e, fs₁, rfl⟩, hrest.1.1.symm, hrest.1.2.symm⟩

/-- An operation of a boot that returns 0. -/
theorem op_or_err {f : Flash → Flash} {ram ram' : Ram} {k : Durable Flash (ℤ × Ram)}
    {fl fl' : Flash} {fs fs' : List Fate}
    (h : (Durable.op f >>= fun err => if err ≠ 0 then pure (err, ram) else k).run fl fs =
      .ret (0, ram') fl' fs') :
    ∃ fs₁, k.run (f fl) fs₁ = .ret (0, ram') fl' fs' := by
  rcases op_ends (c := fun err => err) h with ⟨-, ⟨err, hneg, hzero⟩, -⟩ | ⟨fs₁, -, hrest⟩
  · omega
  · exact ⟨fs₁, hrest⟩

/-- A write of a boot that returns 0. -/
theorem write_or_eio {id : ℕ} {bs : List UInt8} {ram ram' : Ram} {k : Durable Flash (ℤ × Ram)}
    {fl fl' : Flash} {fs fs' : List Fate}
    (h : (nvsWrite true id bs >>= fun err => if err < 0 then pure (-eio, ram) else k).run fl fs =
      .ret (0, ram') fl' fs') :
    ∃ fs₁, k.run (Function.update fl id (some bs)) fs₁ = .ret (0, ram') fl' fs' := by
  rcases write_ends h with ⟨-, hzero, -⟩ | ⟨fs₁, -, hrest⟩
  · simp [eio] at hzero
  · exact ⟨fs₁, hrest⟩

/-- **How a migration returns 0**: the three entries are all there. -/
theorem storeMigrate_ret {ram ram' : Ram} {fl fl' : Flash} {fs fs' : List Fate}
    (h : (storeMigrate L ram).run fl fs = .ret (0, ram') fl' fs') :
    fl' = migrated L ram.counters ∧
      ram' = ⟨true, ram.counters, ram.counters.baseSec, ram.counters.nextSeq⟩ := by
  unfold storeMigrate at h
  obtain ⟨fs₁, h1⟩ := op_or_err h
  obtain ⟨fs₂, h2⟩ := op_or_err h1
  obtain ⟨fs₃, h3⟩ := write_or_eio h2
  obtain ⟨fs₄, h4⟩ := write_or_eio h3
  obtain ⟨fs₅, h5⟩ := write_or_eio h4
  simp only [Durable.run_pure, Outcome.ret.injEq, Prod.mk.injEq, true_and] at h5
  exact ⟨h5.2.1.symm, h5.1.symm⟩

theorem write_or_eio_cut {id : ℕ} {bs : List UInt8} {ram : Ram} {k : Durable Flash (ℤ × Ram)}
    {m : Bool} {fl fl' : Flash} {fs : List Fate}
    (h : (nvsWrite m id bs >>= fun err => if err < 0 then pure (-eio, ram) else k).run fl fs =
      .cut fl') :
    fl' = fl ∨ fl' = Function.update fl id (some bs) ∨
      ∃ fs₁, k.run (Function.update fl id (some bs)) fs₁ = .cut fl' := by
  rcases Durable.bind_cut_iff.1 h with h1 | ⟨err, fl₁, fs₁, h1, hrest⟩
  · rcases (nvsWrite_cut h1).2 with h2 | h2
    · exact Or.inl h2
    · exact Or.inr (Or.inl h2)
  · rcases nvsWrite_ret h1 with ⟨rfl, -, rfl⟩ | ⟨hneg, -⟩
    · rw [if_neg (lt_irrefl 0)] at hrest
      exact Or.inr (Or.inr ⟨fs₁, hrest⟩)
    · rw [if_pos hneg] at hrest
      simp at hrest

theorem op_or_err_cut {f : Flash → Flash} {ram : Ram} {k : Durable Flash (ℤ × Ram)}
    {fl fl' : Flash} {fs : List Fate}
    (h : (Durable.op f >>= fun err => if err ≠ 0 then pure (err, ram) else k).run fl fs =
      .cut fl') :
    fl' = fl ∨ fl' = f fl ∨ ∃ fs₁, k.run (f fl) fs₁ = .cut fl' := by
  rcases Durable.bind_cut_iff.1 h with h1 | ⟨err, fl₁, fs₁, h1, hrest⟩
  · rcases Durable.op_cut h1 with h2 | h2
    · exact Or.inl h2
    · exact Or.inr (Or.inl h2)
  · rcases Durable.op_ret h1 with ⟨rfl, rfl⟩ | ⟨hneg, -⟩
    · rw [if_neg (by simp)] at hrest
      exact Or.inr (Or.inr ⟨fs₁, hrest⟩)
    · rw [if_pos hneg.ne] at hrest
      simp at hrest

/-- **How a migration is cut**: before the erase, or between two of the writes after it. -/
theorem storeMigrate_cut {ram : Ram} {fl fl' : Flash} {fs : List Fate}
    (h : (storeMigrate L ram).run fl fs = .cut fl') :
    fl' = fl ∨ fl' = (fun _ => none) ∨ fl' = eraseFormat L ∨ fl' = eraseFloor L ram.counters ∨
      fl' = migrated L ram.counters := by
  unfold storeMigrate at h
  rcases op_or_err_cut h with h1 | h1 | ⟨fs₁, h1⟩
  · exact Or.inl h1
  · exact Or.inr (Or.inl h1)
  rcases op_or_err_cut h1 with h2 | h2 | ⟨fs₂, h2⟩
  · exact Or.inr (Or.inl h2)
  · exact Or.inr (Or.inl h2)
  rcases write_or_eio_cut h2 with h3 | h3 | ⟨fs₃, h3⟩
  · exact Or.inr (Or.inl h3)
  · exact Or.inr (Or.inr (Or.inl h3))
  rcases write_or_eio_cut h3 with h4 | h4 | ⟨fs₄, h4⟩
  · exact Or.inr (Or.inr (Or.inl h4))
  · exact Or.inr (Or.inr (Or.inr (Or.inl h4)))
  rcases write_or_eio_cut h4 with h5 | h5 | ⟨fs₅, h5⟩
  · exact Or.inr (Or.inr (Or.inr (Or.inl h5)))
  · exact Or.inr (Or.inr (Or.inr (Or.inr h5)))
  · simp at h5

/-- A program that begins by an operation on nothing: it sees the failure, is cut, or goes
on with 0 and the fates that are left, and the flash is as it was. -/
theorem nvsTouch_bind {α : Type} (k : ℤ → Durable Flash α) (fl : Flash) (fs : List Fate) :
    (∃ rc fs', rc < 0 ∧ (nvsTouch >>= k).run fl fs = (k rc).run fl fs') ∨
      (nvsTouch >>= k).run fl fs = .cut fl ∨
        ∃ fs', (fs = .ok :: fs' ∨ (fs = [] ∧ fs' = [])) ∧
          (nvsTouch >>= k).run fl fs = (k 0).run fl fs' := by
  rw [Durable.run_bind]
  cases h : nvsTouch.run fl fs with
  | ret rc s fs' =>
    obtain ⟨-, rfl⟩ := nvsTouch_ret h
    rcases Durable.op_ret_fates h with ⟨rfl, rfl, rfl, -⟩ | ⟨rfl, rfl, -⟩ | ⟨e, -, hneg, -⟩
    · exact Or.inr (Or.inr ⟨[], Or.inr ⟨rfl, rfl⟩, rfl⟩)
    · exact Or.inr (Or.inr ⟨fs', Or.inl rfl, rfl⟩)
    · exact Or.inl ⟨rc, fs', hneg, rfl⟩
  | cut s =>
    obtain rfl := nvsTouch_cut h
    exact Or.inr (Or.inl rfl)

/-- What `store_init` does before it looks at the format: it fails without touching
anything, or goes on. -/
theorem storeInit_run (fl : Flash) (fs : List Fate) :
    (∃ rc fs', rc < 0 ∧ (storeInit L).run fl fs = .ret (rc, Ram.zero) fl fs') ∨
      (storeInit L).run fl fs = .cut fl ∨
        ∃ fs', (fs = .ok :: .ok :: .ok :: fs' ∨ fs' = []) ∧ (storeInit L).run fl fs =
          if formatOf fl ≠ L.format
          then (storeMigrate L { Ram.zero with mounted := true, counters := metaOf fl }).run fl fs'
          else .ret (0, booted fl) fl fs' := by
  unfold storeInit
  -- the three operations before the format: readiness, page info, mount
  rcases nvsTouch_bind _ fl fs with ⟨rc, fs₁, hn, h⟩ | h | ⟨fs₁, hfs₁, h⟩
  · rw [h, if_pos hn.ne]
    exact Or.inl ⟨-enodev, fs₁, by decide, rfl⟩
  · exact Or.inr (Or.inl h)
  rw [h, if_neg (by simp)]
  rcases nvsTouch_bind _ fl fs₁ with ⟨rc, fs₂, hn, h⟩ | h | ⟨fs₂, hfs₂, h⟩
  · rw [h, if_pos hn.ne]
    exact Or.inl ⟨rc, fs₂, hn, rfl⟩
  · exact Or.inr (Or.inl h)
  rw [h, if_neg (by simp)]
  rcases nvsTouch_bind _ fl fs₂ with ⟨rc, fs₃, hn, h⟩ | h | ⟨fs₃, hfs₃, h⟩
  · rw [h, if_pos hn.ne]
    exact Or.inl ⟨rc, fs₃, hn, rfl⟩
  · exact Or.inr (Or.inl h)
  rw [h, if_neg (by simp)]
  have hfates : fs = .ok :: .ok :: .ok :: fs₃ ∨ fs₃ = [] := by
    rcases hfs₃ with rfl | ⟨-, rfl⟩
    · rcases hfs₂ with rfl | ⟨rfl, hnil⟩
      · rcases hfs₁ with rfl | ⟨rfl, hnil⟩
        · exact Or.inl rfl
        · simp at hnil
      · simp at hnil
    · exact Or.inr rfl
  refine Or.inr (Or.inr ⟨fs₃, hfates, ?_⟩)
  rw [Durable.run_get_bind]
  simp only
  split_ifs
  · rfl
  · rfl

/-- **How a boot with an unchanged format ends**: the flash is as it was, and the
counters are read back unless the boot fails or is cut. -/
theorem storeInit_same {fl : Flash} (hf : formatOf fl = L.format) (fs : List Fate) :
    (∃ rc fs', rc < 0 ∧ (storeInit L).run fl fs = .ret (rc, Ram.zero) fl fs') ∨
      (storeInit L).run fl fs = .cut fl ∨
        ∃ fs', (storeInit L).run fl fs = .ret (0, booted fl) fl fs' := by
  rcases storeInit_run (L := L) fl fs with h | h | ⟨fs', -, h⟩
  · exact Or.inl h
  · exact Or.inr (Or.inl h)
  · rw [if_neg (by simp [hf])] at h
    exact Or.inr (Or.inr ⟨fs', h⟩)

/-- **How a boot returns 0**: with its own format it reads the counters back, with
another it migrates. -/
theorem storeInit_ret {fl fl' : Flash} {ram : Ram} {fs fs' : List Fate}
    (h : (storeInit L).run fl fs = .ret (0, ram) fl' fs') :
    (formatOf fl = L.format ∧ fl' = fl ∧ ram = booted fl) ∨
      (formatOf fl ≠ L.format ∧ fl' = migrated L (metaOf fl) ∧
        ram = booted (migrated L (metaOf fl))) := by
  rcases storeInit_run (L := L) fl fs with ⟨rc, fs₁, hn, h1⟩ | h1 | ⟨fs₁, -, h1⟩
  · rw [h1] at h
    simp only [Outcome.ret.injEq, Prod.mk.injEq] at h
    omega
  · rw [h1] at h; simp at h
  rw [h1] at h
  by_cases hf : formatOf fl ≠ L.format
  · rw [if_pos hf] at h
    obtain ⟨h2, h3⟩ := storeMigrate_ret h
    refine Or.inr ⟨hf, h2, ?_⟩
    rw [h3]
    simp [booted]
  · rw [if_neg hf] at h
    simp only [Outcome.ret.injEq, Prod.mk.injEq, true_and] at h
    exact Or.inl ⟨not_not.1 hf, h.2.1.symm, h.1.symm⟩

/-- **How a boot is cut**: with the flash as it was, or in a migration. -/
theorem storeInit_cut {fl fl' : Flash} {fs : List Fate}
    (h : (storeInit L).run fl fs = .cut fl') :
    fl' = fl ∨ fl' = (fun _ => none) ∨ fl' = eraseFormat L ∨ fl' = eraseFloor L (metaOf fl) ∨
      fl' = migrated L (metaOf fl) := by
  rcases storeInit_run (L := L) fl fs with ⟨rc, fs₁, -, h1⟩ | h1 | ⟨fs₁, -, h1⟩
  · rw [h1] at h; simp at h
  · rw [h1] at h
    simp only [Outcome.cut.injEq] at h
    exact Or.inl h.symm
  rw [h1] at h
  by_cases hf : formatOf fl ≠ L.format
  · rw [if_pos hf] at h
    exact storeMigrate_cut h
  · rw [if_neg hf] at h; simp at h

/-! ## `store_append` -/

/-- The static variables after the record is stored. -/
def Ram.bump (ram : Ram) (up : ℕ) : Ram :=
  { ram with counters := ⟨ram.counters.nextSeq + 1, storeNow ram up⟩ }

/-- The record as the store fills it in. -/
def stamped (L : Layout ρ) (ram : Ram) (up : ℕ) (rec : ρ) : ρ :=
  L.stamp ram.counters.nextSeq (storeNow ram up) rec

@[simp] theorem seq_stamped (ram : Ram) (up : ℕ) (rec : ρ) :
    L.seq (stamped L ram up rec) = ram.counters.nextSeq := L.seq_stamp _ _ _

/-- **How an append returns**: nothing done; the record stored but not the counters;
or both, and 0. -/
theorem storeAppend_ret {ram ram' : Ram} {rec out : ρ} {up : ℕ} {fl fl' : Flash}
    {fs fs' : List Fate} {rc : ℤ}
    (h : (storeAppend L ram rec up).run fl fs = .ret (rc, ram', out) fl' fs') :
    out = stamped L ram up rec ∧
    ((rc < 0 ∧ ram' = ram ∧ fl' = fl) ∨
      (ram.mounted = true ∧ ram' = ram.bump up ∧
        ((rc < 0 ∧ fl' = putRec L fl out) ∨
          (rc = 0 ∧ fl' = putMeta (putRec L fl out) (ram.bump up).counters)))) := by
  unfold storeAppend at h
  simp only [L.ts_stamp] at h
  obtain ⟨err, fl₁, fs₁, h1, hrest⟩ := Durable.bind_ret_iff.1 h
  clear h
  rcases nvsWrite_ret h1 with ⟨rfl, hm, rfl⟩ | ⟨hneg, rfl⟩
  · rw [if_neg (by omega)] at hrest
    obtain ⟨err, fl₂, fs₂, h2, hlast⟩ := Durable.bind_ret_iff.1 hrest
    simp only [Durable.run_pure, Outcome.ret.injEq, Prod.mk.injEq] at hlast
    obtain ⟨⟨rfl, rfl, rfl⟩, rfl, -⟩ := hlast
    refine ⟨rfl, Or.inr ⟨hm, rfl, ?_⟩⟩
    rcases nvsWrite_ret h2 with ⟨rfl, -, rfl⟩ | ⟨hneg, rfl⟩
    · exact Or.inr ⟨rfl, rfl⟩
    · exact Or.inl ⟨by rw [if_pos hneg]; exact hneg, rfl⟩
  · rw [if_pos hneg] at hrest
    simp only [Durable.run_pure, Outcome.ret.injEq, Prod.mk.injEq] at hrest
    obtain ⟨⟨rfl, rfl, rfl⟩, rfl, -⟩ := hrest
    exact ⟨rfl, Or.inl ⟨hneg, rfl, rfl⟩⟩

/-- An append with nothing in its way returns 0. -/
theorem storeAppend_returns {ram : Ram} (hm : ram.mounted = true) (rec : ρ) (up : ℕ) (fl : Flash) :
    (storeAppend L ram rec up).run fl [] =
      .ret (0, ram.bump up, stamped L ram up rec)
        (putMeta (putRec L fl (stamped L ram up rec)) (ram.bump up).counters) [] := by
  unfold storeAppend nvsWrite
  simp only [hm, if_true, L.ts_stamp]
  unfold Ram.bump
  rw [hm]
  rfl

/-- **How an append is cut**: before the record, between record and counters, or after
both. -/
theorem storeAppend_cut {ram : Ram} {rec : ρ} {up : ℕ} {fl fl' : Flash} {fs : List Fate}
    (h : (storeAppend L ram rec up).run fl fs = .cut fl') :
    fl' = fl ∨ fl' = putRec L fl (stamped L ram up rec) ∨
      fl' = putMeta (putRec L fl (stamped L ram up rec)) (ram.bump up).counters := by
  unfold storeAppend at h
  simp only [L.ts_stamp] at h
  rcases Durable.bind_cut_iff.1 h with h1 | ⟨err, fl₁, fs₁, h1, hrest⟩
  · rcases (nvsWrite_cut h1).2 with rfl | rfl
    · exact Or.inl rfl
    · exact Or.inr (Or.inl rfl)
  clear h
  rcases nvsWrite_ret h1 with ⟨rfl, -, rfl⟩ | ⟨hneg, rfl⟩
  · rw [if_neg (by omega)] at hrest
    rcases Durable.bind_cut_iff.1 hrest with h2 | ⟨err, fl₂, fs₂, h2, hlast⟩
    · rcases (nvsWrite_cut h2).2 with rfl | rfl
      · exact Or.inr (Or.inl rfl)
      · exact Or.inr (Or.inr rfl)
    · simp at hlast
  · rw [if_pos hneg] at hrest
    simp at hrest

/-- Only a mounted store is there to be cut. -/
theorem storeAppend_cut_mounted {ram : Ram} {rec : ρ} {up : ℕ} {fl fl' : Flash} {fs : List Fate}
    (h : (storeAppend L ram rec up).run fl fs = .cut fl') : ram.mounted = true := by
  unfold storeAppend at h
  rcases Durable.bind_cut_iff.1 h with h1 | ⟨err, fl₁, fs₁, h1, hrest⟩
  · exact (nvsWrite_cut h1).1
  · rcases nvsWrite_ret h1 with ⟨-, hm, -⟩ | ⟨hneg, -⟩
    · exact hm
    · rw [if_pos hneg] at hrest
      simp at hrest

/-! ## `store_get` -/

/-- The part of a read under the lock. -/
theorem storeRead_ok_iff {ram : Ram} {fl : Flash} {seq : UInt32} {r : ρ} :
    storeRead L ram fl seq = .ok r ↔
      ram.mounted = true ∧ recAt L fl seq = some r ∧ L.seq r = seq := by
  unfold storeRead nvsRead recAt
  cases ram.mounted with
  | false =>
    simp only [Bool.false_eq_true, if_false, false_and, iff_false]
    rw [if_pos (by unfold eacces; omega)]
    simp
  | true =>
    simp only [if_true, true_and]
    cases fl (recId seq) with
    | none =>
      simp only
      rw [if_pos (by unfold enoent; omega)]
      simp
    | some bs =>
      simp only
      by_cases hl : bs.length = L.size
      · rw [if_neg (by omega), if_pos hl]
        have hbs : bs.take (List.replicate L.size (0 : UInt8)).length ++
            (List.replicate L.size 0).drop bs.length = bs := by simp [← hl]
        rw [hbs]
        constructor
        · intro h
          split at h
          · rename_i hs
            simp only [Except.ok.injEq] at h
            subst h; exact ⟨rfl, hs⟩
          · simp at h
        · rintro ⟨h, hs⟩
          simp only [Option.some.injEq] at h
          subst h
          rw [if_pos hs]
      · rw [if_pos (by omega), if_neg hl]
        simp

/-- **What a read answers.** -/
theorem storeGet_ok_iff {ram : Ram} {fl : Flash} {seq : UInt32} {r : ρ} :
    storeGet L ram fl seq = .ok r ↔
      seq < ram.counters.nextSeq ∧ storeOldestSeq ram ≤ seq ∧ ram.mounted = true ∧
        recAt L fl seq = some r ∧ L.seq r = seq := by
  unfold storeGet
  by_cases h : seq ≥ ram.counters.nextSeq ∨ seq < storeOldestSeq ram
  · rw [if_pos h]
    constructor
    · intro h'; simp at h'
    · rintro ⟨h1, h2, -⟩
      rcases h with h | h
      · exact absurd h1 (UInt32.not_lt.2 h)
      · exact absurd h2 (UInt32.not_le.2 h)
  · rw [if_neg h, storeRead_ok_iff]
    simp only [not_or, UInt32.not_le, UInt32.not_lt, GE.ge] at h
    exact ⟨fun h' => ⟨h.1, h.2, h'⟩, fun h' => h'.2.2⟩

/-- A read that does not answer says `-ENOENT`. -/
theorem storeGet_error {ram : Ram} {fl : Flash} {seq : UInt32} {e : ℤ}
    (h : storeGet L ram fl seq = .error e) : e = -enoent := by
  unfold storeGet storeRead at h
  split at h
  · simp only [Except.error.injEq] at h; exact h.symm
  · simp only at h
    split_ifs at h
    · simp only [Except.error.injEq] at h; exact h.symm
    · simp only [Except.error.injEq] at h; exact h.symm

/-! ## What every record in flash has -/

section Holds

variable {q : ρ → Prop}

/-- Every record in flash has a property. -/
def Holds (L : Layout ρ) (q : ρ → Prop) (fl : Flash) : Prop :=
  ∀ s r, recAt L fl s = some r → q r

theorem holds_update {fl : Flash} {id : ℕ} (hid : id < nvsIdRec0) (bs : List UInt8)
    (h : Holds L q fl) : Holds L q (Function.update fl id (some bs)) := by
  intro s r hs
  have hne : recId s ≠ id := by
    rw [recId_eq]
    unfold nvsIdRec0 at hid
    omega
  apply h s r
  unfold recAt at hs ⊢
  rw [Function.update_of_ne hne] at hs
  exact hs

theorem holds_putRec {fl : Flash} {r : ρ} (hr : q r) (h : Holds L q fl) :
    Holds L q (putRec L fl r) := by
  intro s r' hs
  by_cases hslot : recId s = recId (L.seq r)
  · rw [recAt_putRec_self fl r hslot, Option.some.injEq] at hs
    rw [← hs]
    exact hr
  · rw [recAt_putRec_ne fl r hslot] at hs
    exact h s r' hs

/-- A write beside the slots. -/
theorem nvsWrite_keeps (m : Bool) {id : ℕ} (hid : id < nvsIdRec0) (bs : List UInt8) :
    Durable.Keeps (Holds L q) (nvsWrite m id bs) := by
  unfold nvsWrite
  apply Durable.keeps_ite
  · exact Durable.keeps_op fun fl h => holds_update hid bs h
  · exact Durable.keeps_pure _

theorem nvsClear_keeps : Durable.Keeps (Holds L q) nvsClear :=
  Durable.keeps_op fun _ _ _ _ hs => absurd hs (by simp [recAt])

theorem nvsTouch_keeps : Durable.Keeps (Holds L q) nvsTouch := Durable.keeps_op fun _ h => h

theorem storeMigrate_keeps (ram : Ram) : Durable.Keeps (Holds L q) (storeMigrate L ram) := by
  unfold storeMigrate
  refine Durable.keeps_bind nvsClear_keeps fun err => ?_
  refine Durable.keeps_ite (Durable.keeps_pure _) ?_
  refine Durable.keeps_bind nvsTouch_keeps fun err => ?_
  refine Durable.keeps_ite (Durable.keeps_pure _) ?_
  refine Durable.keeps_bind (nvsWrite_keeps _ (by decide) _) fun err => ?_
  refine Durable.keeps_ite (Durable.keeps_pure _) ?_
  refine Durable.keeps_bind (nvsWrite_keeps _ (by decide) _) fun err => ?_
  refine Durable.keeps_ite (Durable.keeps_pure _) ?_
  refine Durable.keeps_bind (nvsWrite_keeps _ (by decide) _) fun err => ?_
  exact Durable.keeps_ite (Durable.keeps_pure _) (Durable.keeps_pure _)

/-- **A boot** makes no records, whatever becomes of it. -/
theorem storeInit_keeps : Durable.Keeps (Holds L q) (storeInit L) := by
  unfold storeInit
  refine Durable.keeps_bind nvsTouch_keeps fun ready => ?_
  refine Durable.keeps_ite (Durable.keeps_pure _) ?_
  refine Durable.keeps_bind nvsTouch_keeps fun err => ?_
  refine Durable.keeps_ite (Durable.keeps_pure _) ?_
  refine Durable.keeps_bind nvsTouch_keeps fun err => ?_
  refine Durable.keeps_ite (Durable.keeps_pure _) ?_
  refine Durable.keeps_get fun fl => ?_
  exact Durable.keeps_ite (storeMigrate_keeps _) (Durable.keeps_pure _)

/-- **An append** makes one record, whatever becomes of it. -/
theorem storeAppend_keeps {ram : Ram} {rec : ρ} {up : ℕ} (hr : q (stamped L ram up rec)) :
    Durable.Keeps (Holds L q) (storeAppend L ram rec up) := by
  unfold storeAppend
  refine Durable.keeps_bind ?_ fun err => ?_
  · unfold nvsWrite
    exact Durable.keeps_ite (Durable.keeps_op fun fl h => holds_putRec hr h) (Durable.keeps_pure _)
  · refine Durable.keeps_ite (Durable.keeps_pure _) ?_
    refine Durable.keeps_bind (nvsWrite_keeps _ (by decide) _) fun err => ?_
    exact Durable.keeps_pure _

end Holds

end PresenceNode
