import Mathlib.Tactic.Ring

/-!
# Programs over a store that may fail or lose power

A program works on a durable state `σ`. Each of its operations meets one fate: it takes
effect, it fails and changes nothing, or the power is lost, before or after it takes
effect. A run is then a function of the fates, and quantifying over the fates
quantifies over every failure and every cut.

* `bind_ret_iff`, `bind_cut_iff`: what a run of two programs in a row can end with.
* `op_ret`, `op_cut`: what a run of one operation can end with; with `_fates`, on what
  fate.
* `cutAfter k`: the power is lost once `k` operations are done.
* `keeps_bind`, `keeps_op`: what every operation keeps, every run keeps, however it ends.
* `shows_bind`, `shows_op`: a program whose operations go on alike seen through a map does so too.
-/

/-- What becomes of one operation. -/
inductive Fate where
  | ok
  | fail (e : ℕ)
  | cut (done : Bool)
  deriving DecidableEq, Repr

/-- How a run ends: with a value, or with the power lost and only the state left. -/
inductive Outcome (σ α : Type) where
  | ret (a : α) (s : σ) (fates : List Fate)
  | cut (s : σ)

/-- A program over the durable state `σ`, given the fates of its operations. Operations
past the end of the list take effect. -/
structure Durable (σ α : Type) where
  run : σ → List Fate → Outcome σ α

namespace Outcome

variable {σ α : Type}

/-- The state the run leaves. -/
def state : Outcome σ α → σ
  | ret _ s _ => s
  | cut s => s

end Outcome

namespace Durable

variable {σ α β : Type}

def pure (a : α) : Durable σ α := ⟨fun s fs => .ret a s fs⟩

def bind (x : Durable σ α) (f : α → Durable σ β) : Durable σ β :=
  ⟨fun s fs =>
    match x.run s fs with
    | .ret a s' fs' => (f a).run s' fs'
    | .cut s' => .cut s'⟩

instance : Monad (Durable σ) where
  pure := Durable.pure
  bind := Durable.bind

/-- Read the state. -/
def get : Durable σ σ := ⟨fun s fs => .ret s s fs⟩

/-- One operation: an effect on the state, and 0 or a negative code. -/
def op (f : σ → σ) : Durable σ ℤ :=
  ⟨fun s fs =>
    match fs with
    | [] => .ret 0 (f s) []
    | .ok :: fs => .ret 0 (f s) fs
    | .fail e :: fs => .ret (-(e + 1)) s fs
    | .cut done :: _ => .cut (if done then f s else s)⟩

/-- The power is lost once `k` operations are done. -/
def cutAfter (k : ℕ) : List Fate := List.replicate k .ok ++ [.cut false]

@[simp] theorem run_pure (a : α) (s : σ) (fs : List Fate) :
    (Pure.pure a : Durable σ α).run s fs = .ret a s fs := rfl

@[simp] theorem run_get_bind (f : σ → Durable σ β) (s : σ) (fs : List Fate) :
    (get >>= f).run s fs = (f s).run s fs := rfl

theorem run_bind (x : Durable σ α) (f : α → Durable σ β) (s : σ) (fs : List Fate) :
    (x >>= f).run s fs = match x.run s fs with
      | .ret a s' fs' => (f a).run s' fs'
      | .cut s' => .cut s' := rfl

/-- **Two programs in a row return** when both do. -/
theorem bind_ret_iff {x : Durable σ α} {f : α → Durable σ β} {s s' : σ} {fs fs' : List Fate} {b : β} :
    (x >>= f).run s fs = .ret b s' fs' ↔
      ∃ a s₁ fs₁, x.run s fs = .ret a s₁ fs₁ ∧ (f a).run s₁ fs₁ = .ret b s' fs' := by
  rw [run_bind]
  cases x.run s fs with
  | ret a s₁ fs₁ =>
    constructor
    · intro h; exact ⟨a, s₁, fs₁, rfl, h⟩
    · rintro ⟨a', s', fs', h, h'⟩
      simp only [Outcome.ret.injEq] at h
      obtain ⟨rfl, rfl, rfl⟩ := h
      exact h'
  | cut s₁ => simp

/-- **Two programs in a row are cut** in the first, or in the second after the first. -/
theorem bind_cut_iff {x : Durable σ α} {f : α → Durable σ β} {s s' : σ} {fs : List Fate} :
    (x >>= f).run s fs = .cut s' ↔
      x.run s fs = .cut s' ∨
        ∃ a s₁ fs₁, x.run s fs = .ret a s₁ fs₁ ∧ (f a).run s₁ fs₁ = .cut s' := by
  rw [run_bind]
  cases x.run s fs with
  | ret a s₁ fs₁ =>
    constructor
    · intro h; exact Or.inr ⟨a, s₁, fs₁, rfl, h⟩
    · rintro (h | ⟨a', s', fs', h, h'⟩)
      · simp at h
      · simp only [Outcome.ret.injEq] at h
        obtain ⟨rfl, rfl, rfl⟩ := h
        exact h'
  | cut s₁ => simp

/-- **The fate of an operation that returns**: none left, or the first, which is used up. -/
theorem op_ret_fates {f : σ → σ} {s s' : σ} {fs fs' : List Fate} {rc : ℤ}
    (h : (op f).run s fs = .ret rc s' fs') :
    (fs = [] ∧ fs' = [] ∧ rc = 0 ∧ s' = f s) ∨ (fs = .ok :: fs' ∧ rc = 0 ∧ s' = f s) ∨
      ∃ e, fs = .fail e :: fs' ∧ rc < 0 ∧ s' = s := by
  unfold op at h
  simp only at h
  split at h <;> simp only [Outcome.ret.injEq, reduceCtorEq] at h
  · obtain ⟨rfl, rfl, rfl⟩ := h; exact Or.inl ⟨rfl, rfl, rfl, rfl⟩
  · obtain ⟨rfl, rfl, rfl⟩ := h; exact Or.inr (Or.inl ⟨rfl, rfl, rfl⟩)
  · obtain ⟨rfl, rfl, rfl⟩ := h; exact Or.inr (Or.inr ⟨_, rfl, by omega, rfl⟩)

/-- **The fate of an operation that is cut.** -/
theorem op_cut_fates {f : σ → σ} {s s' : σ} {fs : List Fate} (h : (op f).run s fs = .cut s') :
    ∃ done rest, fs = .cut done :: rest ∧ s' = if done then f s else s := by
  unfold op at h
  simp only at h
  split at h <;> simp only [Outcome.cut.injEq, reduceCtorEq] at h
  exact ⟨_, _, rfl, h.symm⟩

/-- **An operation returns** 0 with its effect, or a negative code without. -/
theorem op_ret {f : σ → σ} {s s' : σ} {fs fs' : List Fate} {rc : ℤ}
    (h : (op f).run s fs = .ret rc s' fs') : (rc = 0 ∧ s' = f s) ∨ (rc < 0 ∧ s' = s) := by
  rcases op_ret_fates h with ⟨-, -, h1⟩ | ⟨-, h1⟩ | ⟨e, -, h1⟩
  · exact Or.inl h1
  · exact Or.inl h1
  · exact Or.inr h1

/-- **An operation is cut** before its effect or after it. -/
theorem op_cut {f : σ → σ} {s s' : σ} {fs : List Fate} (h : (op f).run s fs = .cut s') :
    s' = s ∨ s' = f s := by
  obtain ⟨done, rest, -, h1⟩ := op_cut_fates h
  cases done
  · exact Or.inl h1
  · exact Or.inr h1

/-- An operation that takes effect. -/
@[simp] theorem run_op_ok (f : σ → σ) (s : σ) (fs : List Fate) :
    (op f).run s (.ok :: fs) = .ret 0 (f s) fs := rfl

@[simp] theorem run_op_nil (f : σ → σ) (s : σ) : (op f).run s [] = .ret 0 (f s) [] := rfl

@[simp] theorem run_op_cut (f : σ → σ) (s : σ) (fs : List Fate) :
    (op f).run s (.cut false :: fs) = .cut s := rfl

/-! ## What a run keeps -/

/-- **A program keeps** a property of the state, whatever the fates and however it ends. -/
def Keeps (P : σ → Prop) (x : Durable σ α) : Prop := ∀ s fs, P s → P (x.run s fs).state

variable {P : σ → Prop}

theorem keeps_pure (a : α) : Keeps P (Pure.pure a : Durable σ α) := fun _ _ h => h

theorem keeps_bind {x : Durable σ α} {f : α → Durable σ β} (hx : Keeps P x)
    (hf : ∀ a, Keeps P (f a)) : Keeps P (x >>= f) := by
  intro s fs h
  have h₁ := hx s fs h
  rw [run_bind]
  cases hr : x.run s fs with
  | ret a s₁ fs₁ =>
    rw [hr] at h₁
    exact hf a s₁ fs₁ h₁
  | cut s₁ =>
    rw [hr] at h₁
    exact h₁

/-- A program that goes on from what it reads. -/
theorem keeps_get {f : σ → Durable σ β} (hf : ∀ s, Keeps P (f s)) : Keeps P (get >>= f) :=
  fun s fs h => hf s s fs h

theorem keeps_ite {c : Prop} [Decidable c] {x y : Durable σ α} (hx : Keeps P x)
    (hy : Keeps P y) : Keeps P (if c then x else y) := by
  split_ifs
  · exact hx
  · exact hy

theorem keeps_op {f : σ → σ} (hf : ∀ s, P s → P (f s)) : Keeps P (op f) := by
  intro s fs h
  cases hr : (op f).run s fs with
  | ret rc s' fs' =>
    rcases op_ret hr with ⟨-, rfl⟩ | ⟨-, rfl⟩
    · exact hf s h
    · exact h
  | cut s' =>
    rcases op_cut hr with rfl | rfl
    · exact h
    · exact hf s h

/-! ## Seen through a map -/

section Shows

variable {σ' α' β' : Type} {h : σ → σ'} {k : α → α'}

/-- How a run ends, its state and its value seen through maps. -/
def map (h : σ → σ') (k : α → α') : Outcome σ α → Outcome σ' α'
  | .ret a s fs => .ret (k a) (h s) fs
  | .cut s => .cut (h s)

/-- **`y` shows what `x` does**, seen through a map of the states and one of the values: from states
that correspond and with the same fates they end alike. -/
def Shows (h : σ → σ') (k : α → α') (x : Durable σ α) (y : Durable σ' α') : Prop :=
  ∀ s fs, y.run (h s) fs = map h k (x.run s fs)

theorem shows_pure (a : α) : Shows h k (Pure.pure a) (Pure.pure (k a)) := fun _ _ => rfl

theorem shows_bind {k' : β → β'} {x : Durable σ α} {y : Durable σ' α'} {f : α → Durable σ β}
    {g : α' → Durable σ' β'} (hx : Shows h k x y) (hf : ∀ a, Shows h k' (f a) (g (k a))) :
    Shows h k' (x >>= f) (y >>= g) := by
  intro s fs
  rw [run_bind, run_bind, hx s fs]
  cases x.run s fs with
  | ret a s₁ fs₁ => exact hf a s₁ fs₁
  | cut s₁ => rfl

/-- Programs that go on from what they read. -/
theorem shows_get {k' : β → β'} {f : σ → Durable σ β} {g : σ' → Durable σ' β'}
    (hf : ∀ s, Shows h k' (f s) (g (h s))) : Shows h k' (get >>= f) (get >>= g) :=
  fun s fs => hf s s fs

theorem shows_ite {c : Prop} [Decidable c] {x x' : Durable σ α} {y y' : Durable σ' α'}
    (hx : Shows h k x y) (hx' : Shows h k x' y') :
    Shows h k (if c then x else x') (if c then y else y') := by
  split_ifs
  · exact hx
  · exact hx'

/-- Operations that correspond. -/
theorem shows_op {f : σ → σ} {f' : σ' → σ'} (hf : ∀ s, f' (h s) = h (f s)) :
    Shows h id (op f) (op f') := by
  intro s fs
  match fs with
  | [] => simp [op, map, hf]
  | .ok :: fs => simp [op, map, hf]
  | .fail e :: fs => rfl
  | .cut true :: fs => simp [op, map, hf]
  | .cut false :: fs => rfl

end Shows

end Durable
