import PresenceNode.Spec.Store

/-!
# The life of a store with one firmware

A run of boots, appends, reads and losses of power in any order, with every flash
operation subject to its fate. Beside the flash and the static variables the state keeps
what was asked and what was answered.
-/

namespace PresenceNode

/-- What happens to the store. -/
inductive Event (ρ : Type) where
  /-- `store_init`, from power-up or a reset. -/
  | boot (fates : List Fate)
  /-- `store_append` at an uptime in milliseconds. -/
  | append (rec : ρ) (up : ℕ) (fates : List Fate)
  /-- `store_get`. -/
  | get (seq : UInt32)
  /-- The power is lost between two operations. -/
  | off

/-- The flash, the static variables while the power is on, the seqs asked for inside the
ring, and the answers, latest first. -/
structure Life (ρ : Type) where
  flash : Flash
  ram : Option Ram
  asked : List UInt32
  served : List (UInt32 × ρ)

namespace Life

variable {ρ : Type} (L : Layout ρ)

/-- A store that is switched off, with a given flash. -/
def start (fl : Flash) : Life ρ := ⟨fl, none, [], []⟩

/-- `store_get` on a running store; the read is noted. -/
def answer (l : Life ρ) (ram : Ram) (seq : UInt32) : Life ρ :=
  let l := if storeOldestSeq ram ≤ seq ∧ seq < storeNextSeq ram
    then { l with asked := seq :: l.asked } else l
  match storeGet L ram l.flash seq with
  | .ok r => { l with served := (seq, r) :: l.served }
  | .error _ => l

/-- One event. Without power there are no appends and no reads; a boot that fails leaves
the store running all the same. -/
def step (l : Life ρ) : Event ρ → Life ρ
  | .boot fates =>
    match (storeInit L).run l.flash fates with
    | .ret (_, ram) fl _ => { l with flash := fl, ram := some ram }
    | .cut fl => { l with flash := fl, ram := none }
  | .append rec up fates =>
    match l.ram with
    | none => l
    | some ram =>
      match (storeAppend L ram rec up).run l.flash fates with
      | .ret (_, ram, _) fl _ => { l with flash := fl, ram := some ram }
      | .cut fl => { l with flash := fl, ram := none }
  | .get seq =>
    match l.ram with
    | none => l
    | some ram => l.answer L ram seq
  | .off => { l with ram := none }

def run (l : Life ρ) (evs : List (Event ρ)) : Life ρ := evs.foldl (step L) l

@[simp] theorem run_nil (l : Life ρ) : l.run L [] = l := rfl

@[simp] theorem run_cons (l : Life ρ) (e : Event ρ) (evs : List (Event ρ)) :
    l.run L (e :: evs) = (l.step L e).run L evs := rfl

/-- **One meaning for each seq**: two answers for the same seq are the same record. -/
def Consistent (l : Life ρ) : Prop :=
  ∀ s r r', (s, r) ∈ l.served → (s, r') ∈ l.served → r = r'

/-- **What an event must not do.** A boot must not find a counter in flash that is not
beyond every seq already asked for, and no append may be made at the last seq. -/
def Guarded (l : Life ρ) : Event ρ → Prop
  | .boot _ => ∀ s ∈ l.asked, s < (metaOf l.flash).nextSeq
  | .append _ _ _ => ∀ ram ∈ l.ram, storeNextSeq ram < .ofNat (2 ^ 32 - 1)
  | _ => True

/-- Every event of the run is guarded in the state it meets. -/
def GuardedRun (l : Life ρ) : List (Event ρ) → Prop
  | [] => True
  | e :: evs => l.Guarded e ∧ GuardedRun (l.step L e) evs

instance (l : Life ρ) (e : Event ρ) : Decidable (l.Guarded e) :=
  match e with
  | .boot _ => List.decidableBAll (fun s => s < (metaOf l.flash).nextSeq) l.asked
  | .append _ _ _ =>
    Option.decidableForallMem (p := fun ram => storeNextSeq ram < .ofNat (2 ^ 32 - 1)) l.ram
  | .get _ => isTrue trivial
  | .off => isTrue trivial

instance decidableGuardedRun (l : Life ρ) :
    (evs : List (Event ρ)) → Decidable (l.GuardedRun L evs)
  | [] => isTrue trivial
  | e :: evs =>
    have := decidableGuardedRun (l.step L e) evs
    inferInstanceAs (Decidable (l.Guarded e ∧ (l.step L e).GuardedRun L evs))

end Life

end PresenceNode
