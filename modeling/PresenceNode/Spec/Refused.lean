import PresenceNode.Spec.Life

/-!
# What a store shows after a failure

`window_flush` prints that an append failed and goes on; `main` prints that nothing will be
recorded when `store_init` failed, and goes on as well. `Unchanged` and `RecordsNothing` are
what the two messages stand for.
-/

namespace PresenceNode

variable {ρ : Type} (L : Layout ρ)

/-! ## A failed append -/

/-- The write of the record takes effect, and that of the counters does not. -/
def countersRefused (ram : Ram) : List Fate → Bool
  | .ok :: .fail _ :: _ => ram.mounted
  | _ => false

namespace Life

/-- **Two stores read alike**: the same `store_next_seq`, `store_oldest_seq` and, for every
seq, `store_get`. -/
structure ReadsAs (l l' : Life ρ) : Prop where
  next : l'.ram.map storeNextSeq = l.ram.map storeNextSeq
  oldest : l'.ram.map storeOldestSeq = l.ram.map storeOldestSeq
  get : ∀ seq, (l'.ram.map fun ram => storeGet L ram l'.flash seq) =
    l.ram.map fun ram => storeGet L ram l.flash seq

/-- **Nothing has changed**: not what is read now, not the clock saved for the next boot, and
not what is read after a restart, whatever becomes of its operations. -/
structure Unchanged (l l' : Life ρ) : Prop where
  now : ReadsAs L l l'
  clock : (metaOf l'.flash).baseSec = (metaOf l.flash).baseSec
  restarted : ∀ fates, ReadsAs L (l.step L (.boot fates)) (l'.step L (.boot fates))

end Life

/-! ## A failed boot -/

/-- How many operations take effect before the first that does not. -/
def effects (fates : List Fate) : ℕ := (fates.takeWhile (· = .ok)).length

/-- A call of `store_append`: the record, the uptime, and what becomes of its writes. -/
structure AppendCall (ρ : Type) where
  record : ρ
  up : ℕ
  fates : List Fate

/-- The appends of a boot: what each returns, and the flash in the end. A loss of power ends
the boot. -/
def appends (ram : Ram) (fl : Flash) : List (AppendCall ρ) → List ℤ × Flash
  | [] => ([], fl)
  | c :: calls =>
    match (storeAppend L ram c.record c.up).run fl c.fates with
    | .ret (rc, ram, _) fl _ =>
      let (rcs, fl) := appends ram fl calls
      (rc :: rcs, fl)
    | .cut fl => ([], fl)

/-- **Nothing is recorded**: whatever is appended, every append fails, and the flash stays as it
is. -/
def RecordsNothing (ram : Ram) (fl : Flash) : Prop :=
  ∀ calls : List (AppendCall ρ),
    (∀ rc ∈ (appends L ram fl calls).1, rc < 0) ∧ (appends L ram fl calls).2 = fl

end PresenceNode
