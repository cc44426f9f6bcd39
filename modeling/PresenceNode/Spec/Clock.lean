import PresenceNode.Lib.Machine
import PresenceNode.Spec.Life

/-!
# The clock of a store

The life of a store with the uptime of each boot beside it: the uptime of the latest append,
0 at a boot. `ts` is `boot_offset` plus the uptime in seconds, and `boot_offset` is what the
counters in flash say.
-/

namespace PresenceNode

/-- A store, and the uptime up to which its boot has come. -/
structure Clocked (ρ : Type) where
  life : Life ρ
  up : ℕ

/-- Three operations that take effect, and an `nvs_clear` that does not. -/
def clearRefused : List Fate → Bool
  | .ok :: .ok :: .ok :: .fail _ :: _ => true
  | _ => false

/-- **The ring below a counter**: the seqs it takes for the latest ones. -/
def Meta.InRing (m : Meta) (seq : UInt32) : Prop :=
  seq < m.nextSeq ∧ m.nextSeq.toNat ≤ seq.toNat + storeCapacity

instance (m : Meta) (seq : UInt32) : Decidable (m.InRing seq) :=
  inferInstanceAs (Decidable (_ ∧ _))

namespace Clocked

variable {ρ : Type} (L : Layout ρ)

/-- A store that is switched off. -/
def start (fl : Flash) : Clocked ρ := ⟨.start fl, 0⟩

def step (d : Clocked ρ) (e : Event ρ) : Clocked ρ :=
  ⟨d.life.step L e,
    match e with
    | .boot _ => 0
    | .append _ up _ => up
    | _ => d.up⟩

/-- **The clock runs on**: no erase is refused, uptimes do not go back within a boot, and the
device's seconds fit 32 bits. -/
def InTime (d : Clocked ρ) : Event ρ → Prop
  | .boot fates => formatOf d.life.flash = L.format ∨ clearRefused fates = false
  | .append _ up _ => ∀ ram ∈ d.life.ram, d.up ≤ up ∧ ram.bootOffset.toNat + up / 1000 < 2 ^ 32
  | _ => True

/-- **No append laps the saved counters**: the seq about to be written is not one that a
restart would take for held. -/
def Unlapped (d : Clocked ρ) : Event ρ → Prop
  | .append _ _ _ => ∀ ram ∈ d.life.ram, ram.mounted = true →
      ¬ (metaOf d.life.flash).InRing ram.counters.nextSeq
  | _ => True

instance (d : Clocked ρ) (e : Event ρ) : Decidable (d.InTime L e) :=
  match e with
  | .boot fates =>
    inferInstanceAs (Decidable (formatOf d.life.flash = L.format ∨ clearRefused fates = false))
  | .append _ up _ =>
    Option.decidableForallMem
      (p := fun (ram : Ram) => d.up ≤ up ∧ ram.bootOffset.toNat + up / 1000 < 2 ^ 32) d.life.ram
  | .get _ | .off => isTrue trivial

instance (d : Clocked ρ) (e : Event ρ) : Decidable (d.Unlapped e) :=
  match e with
  | .append _ _ _ =>
    Option.decidableForallMem (p := fun (ram : Ram) => ram.mounted = true →
      ¬ (metaOf d.life.flash).InRing ram.counters.nextSeq) d.life.ram
  | .boot _ | .get _ | .off => isTrue trivial

/-- **Timestamps follow the seqs**: among what can be read, and before what comes next. -/
structure Ordered (d : Clocked ρ) : Prop where
  sorted : ∀ ram ∈ d.life.ram, ∀ (a b : UInt32) (ra rb : ρ),
    storeGet L ram d.life.flash a = .ok ra → storeGet L ram d.life.flash b = .ok rb → a < b →
      L.ts ra ≤ L.ts rb
  next : ∀ ram ∈ d.life.ram, ∀ (rec out : ρ) (up : ℕ) (ram' : Ram) (fl : Flash)
    (fates fates' : List Fate), d.up ≤ up → ram.bootOffset.toNat + up / 1000 < 2 ^ 32 →
      (storeAppend L ram rec up).run d.life.flash fates = .ret (0, ram', out) fl fates' →
      ∀ (s : UInt32) (r : ρ), storeGet L ram d.life.flash s = .ok r → L.ts r ≤ L.ts out

end Clocked

/-- A store that keeps time. -/
def clockMachine {ρ : Type} (L : Layout ρ) : Machine (Clocked ρ) (Event ρ) := ⟨Clocked.step L⟩

end PresenceNode
