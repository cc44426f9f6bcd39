import PresenceNode.Spec.Store
import Mathlib.Data.Set.Insert
import Mathlib.Logic.Relation

/-!
# Histories of the store

What the store is for, as an observer who only counts appends would keep it (`Ledger`),
and the histories over which it is kept: boots of this or another firmware, appends,
restarts, and the accidents a set allows.

A firmware is its record layout, and its format is the layout's number.
-/

namespace PresenceNode

/-- What can go wrong in a history. -/
inductive Accident where
  | cut
  | recordRefused
  | countersRefused
  deriving DecidableEq, Repr

/-- **What was appended**: the number handed out next, its value at the last format
change, the record appended under each seq since, and whether a cut append has spoilt the
slot the next append goes to. -/
structure Ledger (ρ : Type) where
  next : ℕ
  floor : ℕ
  entry : ℕ → Option ρ
  torn : Bool

namespace Ledger

variable {ρ : Type}

/-- The ledger of a store without records. -/
def fresh (next floor : ℕ) : Ledger ρ := ⟨next, floor, fun _ => none, false⟩

/-- One more record appended. -/
def push (led : Ledger ρ) (r : ρ) : Ledger ρ :=
  ⟨led.next + 1, led.floor, Function.update led.entry led.next (some r), false⟩

/-- An append cut before the counters were saved. -/
def tear (led : Ledger ρ) : Ledger ρ := { led with torn := true }

/-- The oldest seq a ring of the store's capacity still holds. -/
def oldest (led : Ledger ρ) : ℕ := max led.floor (led.next - storeCapacity)

variable (led : Ledger ρ) (r : ρ) (next floor : ℕ)

@[simp] theorem push_next : (led.push r).next = led.next + 1 := rfl
@[simp] theorem push_floor : (led.push r).floor = led.floor := rfl
@[simp] theorem push_torn : (led.push r).torn = false := rfl
@[simp] theorem tear_next : led.tear.next = led.next := rfl
@[simp] theorem tear_oldest : led.tear.oldest = led.oldest := rfl
@[simp] theorem fresh_next : (fresh next floor : Ledger ρ).next = next := rfl
@[simp] theorem fresh_floor : (fresh next floor : Ledger ρ).floor = floor := rfl

theorem oldest_le_iff {n : ℕ} :
    led.oldest ≤ n ↔ led.floor ≤ n ∧ led.next ≤ n + storeCapacity := by
  unfold oldest
  rw [max_le_iff, Nat.sub_le_iff_le_add]

theorem entry_push_self : (led.push r).entry led.next = some r := Function.update_self ..

theorem entry_push_ne {s : ℕ} (h : s ≠ led.next) : (led.push r).entry s = led.entry s :=
  Function.update_of_ne h ..

end Ledger

/-- The record appended under `n` at uptime `up`: the caller's, with its seq and ts. -/
def appended {ρ : Type} (L : Layout ρ) (n : ℕ) (ram : Ram) (rec : ρ) (up : ℕ) : ρ :=
  L.stamp (.ofNat n) (storeNow ram up) rec

/-- The write of the counters took effect before the power was lost. -/
def countersSaved : List Fate → Bool
  | .ok :: .cut true :: _ => true
  | _ => false

/-- A boot that the power loss interrupts. -/
def CutBoot {ρ : Type} (L : Layout ρ) (fl fl' : Flash) : Prop :=
  ∃ fs, (storeInit L).run fl fs = .cut fl'

/-- **The histories of the store**, up to a moment between two operations, with the
accidents `A` allows. Up to there `led` was appended, and the flash and the static
variables are as the firmware left them. -/
inductive History (A : Set Accident) :
    {ρ : Type} → Layout ρ → Flash → Ram → Ledger ρ → Prop where
  /-- The first boot, on a partition with another format or none. -/
  | install {ρ : Type} {L : Layout ρ} {fl fl' : Flash} {ram : Ram} {fs fs' : List Fate}
      (hf : formatOf fl ≠ L.format)
      (boot : (storeInit L).run fl fs = .ret (0, ram) fl' fs') :
      History A L fl' ram (.fresh (metaOf fl).nextSeq.toNat (metaOf fl).nextSeq.toNat)
  /-- A restart between operations. -/
  | restart {ρ : Type} {L : Layout ρ} {fl fl' : Flash} {ram ram' : Ram} {led : Ledger ρ}
      {fs fs' : List Fate} (H : History A L fl ram led)
      (boot : (storeInit L).run fl fs = .ret (0, ram') fl' fs') :
      History A L fl' ram' led
  /-- A restart into a firmware with another record format. -/
  | upgrade {ρ ρ' : Type} {L : Layout ρ} {L' : Layout ρ'} {fl fl' : Flash} {ram ram' : Ram}
      {led : Ledger ρ} {fs fs' : List Fate} (H : History A L fl ram led)
      (hf : L'.format ≠ L.format)
      (boot : (storeInit L').run fl fs = .ret (0, ram') fl' fs') :
      History A L' fl' ram' (.fresh led.next led.next)
  /-- An append that succeeds. -/
  | append {ρ : Type} {L : Layout ρ} {fl fl' : Flash} {ram ram' : Ram} {led : Ledger ρ}
      {rec out : ρ} {up : ℕ} {fs fs' : List Fate} (H : History A L fl ram led)
      (hlt : led.next < 2 ^ 32 - 1)
      (run : (storeAppend L ram rec up).run fl fs = .ret (0, ram', out) fl' fs') :
      History A L fl' ram' (led.push (appended L led.next ram rec up))
  /-- An append cut by a loss of power, and the restart. -/
  | cutAppend {ρ : Type} {L : Layout ρ} {fl fl₁ fl' : Flash} {ram ram' : Ram} {led : Ledger ρ}
      {rec : ρ} {up : ℕ} {fs fs₁ fs' : List Fate} (hA : .cut ∈ A) (H : History A L fl ram led)
      (hlt : led.next < 2 ^ 32 - 1)
      (run : (storeAppend L ram rec up).run fl fs = .cut fl₁)
      (boot : (storeInit L).run fl₁ fs₁ = .ret (0, ram') fl' fs') :
      History A L fl' ram'
        (if countersSaved fs then led.push (appended L led.next ram rec up) else led.tear)
  /-- A restart into a firmware with another record format, cut any number of times; it
  goes on with whatever counters it then finds. -/
  | cutUpgrade {ρ ρ' : Type} {L : Layout ρ} {L' : Layout ρ'} {fl fl₁ fl' : Flash}
      {ram ram' : Ram} {led : Ledger ρ} {fs fs' : List Fate} (hA : .cut ∈ A)
      (H : History A L fl ram led) (hf : L'.format ≠ L.format)
      (cuts : Relation.ReflTransGen (CutBoot L') fl fl₁)
      (boot : (storeInit L').run fl₁ fs = .ret (0, ram') fl' fs') :
      History A L' fl' ram' (.fresh ram'.counters.nextSeq.toNat ram'.floorSeq.toNat)
  /-- An append whose record could not be written. -/
  | refused {ρ : Type} {L : Layout ρ} {fl fl' : Flash} {ram : Ram} {led : Ledger ρ}
      {rec out : ρ} {up : ℕ} {rc : ℤ} {fs fs' : List Fate} (hA : .recordRefused ∈ A)
      (H : History A L fl ram led) (hrc : rc < 0)
      (run : (storeAppend L ram rec up).run fl fs = .ret (rc, ram, out) fl' fs') :
      History A L fl' ram led
  /-- An append whose record was written and whose counters were not. -/
  | halfRefused {ρ : Type} {L : Layout ρ} {fl fl' : Flash} {ram ram' : Ram} {led : Ledger ρ}
      {rec out : ρ} {up : ℕ} {rc : ℤ} {fs fs' : List Fate} (hA : .countersRefused ∈ A)
      (H : History A L fl ram led) (hlt : led.next < 2 ^ 32 - 1) (hrc : rc < 0) (hne : ram' ≠ ram)
      (run : (storeAppend L ram rec up).run fl fs = .ret (rc, ram', out) fl' fs') :
      History A L fl' ram' (led.push (appended L led.next ram rec up))

end PresenceNode
