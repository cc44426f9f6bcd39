import Mathlib.Data.List.Basic

/-!
# Runs of a machine under a guard

A machine goes from state to state, one event at a time. A guard says which events are
allowed in which state; a run is guarded when each of its events is, in the state it meets.

* `run_append`, `guarded_append`: a run in two parts.
* `run_keeps`: what every event keeps, every run keeps.
* `run_invariant`: what every guarded event keeps, every guarded run keeps.
* `run_relates`: two machines whose steps keep a relation keep it over runs.
* `run_shows`: a machine that follows another's steps, or stands still, follows its runs.
-/

/-- A machine with states `σ` and events `ε`. -/
structure Machine (σ ε : Type) where
  step : σ → ε → σ

namespace Machine

variable {σ ε : Type} (M : Machine σ ε)

def run (s : σ) (evs : List ε) : σ := evs.foldl M.step s

/-- Every event of the run is allowed in the state it meets. -/
def Guarded (guard : σ → ε → Prop) : σ → List ε → Prop
  | _, [] => True
  | s, e :: evs => guard s e ∧ Guarded guard (M.step s e) evs

instance decidableGuarded (guard : σ → ε → Prop) [∀ s e, Decidable (guard s e)] :
    (s : σ) → (evs : List ε) → Decidable (M.Guarded guard s evs)
  | _, [] => isTrue trivial
  | s, e :: evs =>
    have := decidableGuarded guard (M.step s e) evs
    inferInstanceAs (Decidable (guard s e ∧ M.Guarded guard (M.step s e) evs))

variable {M}

@[simp] theorem run_nil (s : σ) : M.run s [] = s := rfl

@[simp] theorem run_cons (s : σ) (e : ε) (evs : List ε) :
    M.run s (e :: evs) = M.run (M.step s e) evs := rfl

theorem run_append (s : σ) (a b : List ε) : M.run s (a ++ b) = M.run (M.run s a) b :=
  List.foldl_append

theorem guarded_append {guard : σ → ε → Prop} {s : σ} {a b : List ε} :
    M.Guarded guard s (a ++ b) ↔ M.Guarded guard s a ∧ M.Guarded guard (M.run s a) b := by
  induction a generalizing s with
  | nil => exact ⟨fun h => ⟨trivial, h⟩, fun h => h.2⟩
  | cons e a ih =>
    simp only [List.cons_append, Guarded, run_cons, ih, and_assoc]

/-- **What every event keeps, every run keeps.** -/
theorem run_keeps {Inv : σ → Prop} (hstep : ∀ s e, Inv s → Inv (M.step s e)) {s : σ} (h : Inv s)
    (evs : List ε) : Inv (M.run s evs) := by
  induction evs generalizing s with
  | nil => exact h
  | cons e evs ih => exact ih (hstep s e h)

/-- **What every guarded event keeps, every guarded run keeps.** -/
theorem run_invariant {guard : σ → ε → Prop} {Inv : σ → Prop}
    (hstep : ∀ s e, Inv s → guard s e → Inv (M.step s e)) {s : σ} (h : Inv s) {evs : List ε}
    (hg : M.Guarded guard s evs) : Inv (M.run s evs) := by
  induction evs generalizing s with
  | nil => exact h
  | cons e evs ih => exact ih (hstep s e h hg.1) hg.2

/-- **What corresponding events keep, corresponding runs keep.** -/
theorem run_relates {σ' ε' : Type} {M' : Machine σ' ε'} {R : σ → σ' → Prop} {E : ε → ε' → Prop}
    (hstep : ∀ s s' e e', R s s' → E e e' → R (M.step s e) (M'.step s' e')) {s : σ} {s' : σ'}
    (h : R s s') {evs : List ε} {evs' : List ε'} (hE : List.Forall₂ E evs evs') :
    R (M.run s evs) (M'.run s' evs') := by
  induction hE generalizing s s' with
  | nil => exact h
  | cons he _ ih => exact ih (hstep _ _ _ _ h he)

/-- **A machine that follows another's events**, or stands still at some of them, follows its runs. -/
theorem run_shows {σ' ε' : Type} {M' : Machine σ' ε'} {R : σ → σ' → Prop} {f : ε → Option ε'}
    (hmove : ∀ s s' e e', R s s' → f e = some e' → R (M.step s e) (M'.step s' e'))
    (hstay : ∀ s s' e, R s s' → f e = none → R (M.step s e) s') {s : σ} {s' : σ'} (h : R s s')
    (evs : List ε) : R (M.run s evs) (M'.run s' (evs.filterMap f)) := by
  induction evs generalizing s s' with
  | nil => exact h
  | cons e evs ih =>
    cases he : f e with
    | none =>
      rw [List.filterMap_cons_none he]
      exact ih (hstay s s' e h he)
    | some e' =>
      rw [List.filterMap_cons_some he]
      exact ih (hmove s s' e e' h he)

end Machine
