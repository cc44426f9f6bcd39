import PresenceNode.Lib.Resumed
import PresenceNode.Spec.Clock

/-!
# The dates of the records (`store_now`, and what the receiver does with `ts`)

There is no calendar clock: `ts` counts the seconds that the node was on and knew of. The life of a
store at true times, in milliseconds, with the clock that `boot_offset`, `k_uptime_get` and
`base_sec` make up beside it; each record whose write took effect is a reading of that clock. A
receiver has the timestamps and the time of the download, and computes the dates back.
-/

namespace PresenceNode

/-- `k_uptime_get() / 1000` counts seconds. -/
def secondMs : ℕ := 1000

/-- The operation that meets the first fate takes effect. -/
def takesEffect : List Fate → Bool
  | [] | .ok :: _ | .cut true :: _ => true
  | _ => false

/-- The operation after it takes effect as well. -/
def bothTakeEffect : List Fate → Bool
  | [] => true
  | .ok :: rest => takesEffect rest
  | _ => false

/-- **The receiver's date of a record**, from the time of the download and the newest timestamp: real
time = download time - (newest ts - record ts). -/
def backdate (download : ℕ) (newest ts : UInt32) : ℤ :=
  download - secondMs * ((newest.toNat : ℤ) - ts.toNat)

/-- A store, and the clock that its timestamps are readings of. -/
structure Dated (ρ : Type) where
  life : Life ρ
  clock : Resumed ρ

namespace Dated

variable {ρ : Type} (L : Layout ρ)

/-- A store that is switched off. -/
def start (fl : Flash) (now : ℕ) : Dated ρ := ⟨.start fl, .fresh (metaOf fl).baseSec.toNat now⟩

/-- What an event is to the clock: a boot starts it, an append that stores its record reads it, and
one that saves the counters saves it. -/
def tick (d : Dated ρ) (now : ℕ) : Event ρ → ClockEvent ρ
  | .boot _ => .start now
  | .append rec up fates =>
    match d.life.ram with
    | none => .pass now
    | some ram =>
      if ram.mounted = true ∧ takesEffect fates = true
      then .take now (L.stamp ram.counters.nextSeq (storeNow ram up) rec) (bothTakeEffect fates)
      else .pass now
  | .get _ | .off => .pass now

/-- An event at a time. -/
def step (d : Dated ρ) (e : ℕ × Event ρ) : Dated ρ :=
  ⟨d.life.step L e.2, d.clock.step secondMs (d.tick L e.1 e.2)⟩

/-- **Time runs on**: no event is earlier than the one before, uptime is the time since the boot,
the seconds fit 32 bits, and no append laps the saved counters. -/
def Timely (d : Dated ρ) (e : ℕ × Event ρ) : Prop :=
  d.clock.now ≤ e.1 ∧
    match e.2 with
    | .append _ up _ => up = e.1 - d.clock.started ∧ ∀ ram ∈ d.life.ram,
        ram.bootOffset.toNat + up / secondMs < 2 ^ 32 ∧
          (ram.mounted = true → ¬ (metaOf d.life.flash).InRing ram.counters.nextSeq)
    | _ => True

instance (d : Dated ρ) : (e : ℕ × Event ρ) → Decidable (d.Timely e)
  | (now, .append _ up _) =>
    have : Decidable (∀ ram ∈ d.life.ram, ram.bootOffset.toNat + up / secondMs < 2 ^ 32 ∧
        (ram.mounted = true → ¬ (metaOf d.life.flash).InRing ram.counters.nextSeq)) :=
      Option.decidableForallMem (p := fun (ram : Ram) =>
        ram.bootOffset.toNat + up / secondMs < 2 ^ 32 ∧
          (ram.mounted = true → ¬ (metaOf d.life.flash).InRing ram.counters.nextSeq)) d.life.ram
    inferInstanceAs (Decidable (d.clock.now ≤ now ∧ up = now - d.clock.started ∧ _))
  | (_, .boot _) | (_, .get _) | (_, .off) => inferInstanceAs (Decidable (_ ∧ True))

end Dated

/-- A store whose records are dated. -/
def datedMachine {ρ : Type} (L : Layout ρ) : Machine (Dated ρ) (ℕ × Event ρ) := ⟨Dated.step L⟩

end PresenceNode
