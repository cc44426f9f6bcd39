/-!
# Programs that follow a script

A program works on a state `σ`. Whenever it waits, its environment acts, and the script says
how, one input at a time. Where the script ends the program is still waiting, and only its
state is left. A run is then a function of the script, and quantifying over scripts
quantifies over all that the environment can do and over every moment of a run.

* `Meets P m Q R`: started in `P`, the program `m` returns in `Q` or is found waiting in `R`.
* `meets_bind`, `meets_next`, `meets_get`, `meets_modify`: one rule for each construct.
* `meets_loop`: what every round keeps, the loop keeps.
* `loop_together`, `bind_together`: programs that do the same, step by step, end alike.
* `loop_shorter`: a loop that returns has used up some of the script.
-/

/-- How far a run has come: it has returned, or it waits. -/
inductive Progress (ε σ α : Type) where
  | ret (a : α) (s : σ) (script : List ε)
  | waiting (s : σ)

/-- A program over the state `σ` with inputs `ε`. -/
structure Scripted (ε σ α : Type) where
  run : σ → List ε → Progress ε σ α

namespace Progress

variable {ε σ α : Type}

/-- The state the run has come to. -/
def state : Progress ε σ α → σ
  | ret _ s _ => s
  | waiting s => s

/-- What it has returned. -/
def value : Progress ε σ α → Option α
  | ret a _ _ => some a
  | waiting _ => none

/-- The same run, with its value read in another way. -/
def map {β : Type} (f : α → β) : Progress ε σ α → Progress ε σ β
  | ret a s script => ret (f a) s script
  | waiting s => waiting s

variable {β : Type} {f : α → β}

theorem value_map (p : Progress ε σ α) : (p.map f).value = p.value.map f := by
  cases p with
  | ret a s script => rfl
  | waiting s => rfl

/-- Reading the value in a way that loses nothing tells runs apart. -/
theorem map_inj (hf : ∀ a b, f a = f b → a = b) {p q : Progress ε σ α} :
    p.map f = q.map f ↔ p = q := by
  constructor
  · intro h
    cases p with
    | ret a s script =>
      cases q with
      | ret b s' script' =>
        simp only [map, ret.injEq] at h
        obtain ⟨hab, rfl, rfl⟩ := h
        rw [hf a b hab]
      | waiting s' => simp [map] at h
    | waiting s =>
      cases q with
      | ret b s' script' => simp [map] at h
      | waiting s' => simpa [map] using h
  · intro h
    rw [h]

end Progress

namespace Scripted

variable {ε σ α β : Type}

def pure (a : α) : Scripted ε σ α := ⟨fun s script => .ret a s script⟩

def bind (x : Scripted ε σ α) (f : α → Scripted ε σ β) : Scripted ε σ β :=
  ⟨fun s script =>
    match x.run s script with
    | .ret a s' script' => (f a).run s' script'
    | .waiting s' => .waiting s'⟩

instance : Monad (Scripted ε σ) where
  pure := Scripted.pure
  bind := Scripted.bind

/-- Read the state. -/
def get : Scripted ε σ σ := ⟨fun s script => .ret s s script⟩

def modify (f : σ → σ) : Scripted ε σ Unit := ⟨fun s script => .ret () (f s) script⟩

/-- Wait for the next input. -/
def next : Scripted ε σ ε :=
  ⟨fun s script =>
    match script with
    | [] => .waiting s
    | e :: script => .ret e s script⟩

/-- A loop that waits for an input in every round, and leaves with a value or goes on. -/
def loop (body : ε → β → σ → (α ⊕ β) × σ) (b : β) : Scripted ε σ α :=
  ⟨fun s script => go script b s⟩
where
  go : List ε → β → σ → Progress ε σ α
    | [], _, s => .waiting s
    | e :: script, b, s =>
      match body e b s with
      | (.inl a, s') => .ret a s' script
      | (.inr b', s') => go script b' s'

/-- **Started in `P`, the program returns in `Q` or is found waiting in `R`.** -/
def Meets (P : σ → Prop) (m : Scripted ε σ α) (Q : α → σ → Prop) (R : σ → Prop) : Prop :=
  ∀ s script, P s →
    (∀ a s' script', m.run s script = .ret a s' script' → Q a s') ∧
      ∀ s', m.run s script = .waiting s' → R s'

variable {P : σ → Prop} {Q : α → σ → Prop} {R : σ → Prop}

theorem meets_pure {a : α} (h : ∀ s, P s → Q a s) :
    Meets P (Pure.pure a : Scripted ε σ α) Q R := by
  intro s script hs
  refine ⟨?_, ?_⟩
  · intro a' s' script' hr
    have hret : Progress.ret a s script = .ret a' s' script' := hr
    simp only [Progress.ret.injEq] at hret
    obtain ⟨rfl, rfl, -⟩ := hret
    exact h s hs
  · intro s' hr
    have hret : Progress.ret a s script = .waiting s' := hr
    simp at hret

/-- **Two programs in a row.** -/
theorem meets_bind {x : Scripted ε σ α} {f : α → Scripted ε σ β} {S : β → σ → Prop}
    (hx : Meets P x Q R) (hf : ∀ a, Meets (Q a) (f a) S R) : Meets P (x >>= f) S R := by
  intro s script hs
  obtain ⟨hret, hwait⟩ := hx s script hs
  have hrun : (x >>= f).run s script = match x.run s script with
      | .ret a s' script' => (f a).run s' script'
      | .waiting s' => .waiting s' := rfl
  rw [hrun]
  cases hr : x.run s script with
  | ret a s' script' => exact hf a s' script' (hret a s' script' hr)
  | waiting s' =>
    refine ⟨by simp, ?_⟩
    intro s'' h
    simp only [Progress.waiting.injEq] at h
    rw [← h]
    exact hwait s' hr

theorem meets_weaken {m : Scripted ε σ α} {P' : σ → Prop} {Q' : α → σ → Prop} {R' : σ → Prop}
    (h : Meets P m Q R) (hP : ∀ s, P' s → P s) (hQ : ∀ a s, Q a s → Q' a s)
    (hR : ∀ s, R s → R' s) : Meets P' m Q' R' := by
  intro s script hs
  obtain ⟨hret, hwait⟩ := h s script (hP s hs)
  exact ⟨fun a s' script' hr => hQ a s' (hret a s' script' hr), fun s' hr => hR s' (hwait s' hr)⟩

/-- What was true of the state it started in may be used as a fact. -/
theorem meets_of_start {m : Scripted ε σ α} (h : ∀ s, P s → Meets (fun s' => s' = s) m Q R) :
    Meets P m Q R :=
  fun s script hs => h s hs s script rfl

theorem meets_get : Meets P (get : Scripted ε σ σ) (fun a s => a = s ∧ P s) R := by
  intro s script hs
  refine ⟨?_, ?_⟩
  · intro a s' script' hr
    simp only [get, Progress.ret.injEq] at hr
    obtain ⟨rfl, rfl, -⟩ := hr
    exact ⟨rfl, hs⟩
  · intro s' hr
    simp [get] at hr

theorem meets_modify {f : σ → σ} {S : Unit → σ → Prop} (h : ∀ s, P s → S () (f s)) :
    Meets P (modify f : Scripted ε σ Unit) S R := by
  intro s script hs
  refine ⟨?_, ?_⟩
  · intro a s' script' hr
    simp only [modify, Progress.ret.injEq] at hr
    obtain ⟨-, rfl, -⟩ := hr
    exact h s hs
  · intro s' hr
    simp [modify] at hr

/-- A wait: nothing happens to the state. -/
theorem meets_next (h : ∀ s, P s → R s) :
    Meets P (next : Scripted ε σ ε) (fun _ => P) R := by
  intro s script hs
  cases script with
  | nil =>
    refine ⟨by simp [next], ?_⟩
    intro s' hr
    simp only [next, Progress.waiting.injEq] at hr
    rw [← hr]
    exact h s hs
  | cons e script =>
    refine ⟨?_, by simp [next]⟩
    intro a s' script' hr
    simp only [next, Progress.ret.injEq] at hr
    obtain ⟨-, rfl, -⟩ := hr
    exact hs

/-- **What every round keeps, the loop keeps.** -/
theorem meets_loop {body : ε → β → σ → (α ⊕ β) × σ} (I : β → σ → Prop) (hR : ∀ b s, I b s → R s)
    (hleave : ∀ e b s, I b s → ∀ a s', body e b s = (.inl a, s') → Q a s')
    (hagain : ∀ e b s, I b s → ∀ b' s', body e b s = (.inr b', s') → I b' s') (b : β) :
    Meets (I b) (loop body b) Q R := by
  intro s script
  show I b s → (∀ a s' script', loop.go body script b s = .ret a s' script' → Q a s') ∧
    ∀ s', loop.go body script b s = .waiting s' → R s'
  induction script generalizing b s with
  | nil =>
    intro hs
    refine ⟨by simp [loop.go], ?_⟩
    intro s' hr
    simp only [loop.go, Progress.waiting.injEq] at hr
    rw [← hr]
    exact hR b s hs
  | cons e script ih =>
    intro hs
    unfold loop.go
    rcases hb : body e b s with ⟨a | b', s₁⟩
    · refine ⟨?_, by simp⟩
      intro a' s' script' hr
      simp only [Progress.ret.injEq] at hr
      obtain ⟨rfl, rfl, -⟩ := hr
      exact hleave e b s hs a s₁ hb
    · exact ih b' s₁ (hagain e b s hs b' s₁ hb)

/-! ## Two programs side by side -/

variable {α' β' γ : Type} {f : α' → γ} {g : α → γ}

theorem run_bind (x : Scripted ε σ α) (k : α → Scripted ε σ β) (s : σ) (script : List ε) :
    (x >>= k).run s script = match x.run s script with
      | .ret a s' script' => (k a).run s' script'
      | .waiting s' => .waiting s' := rfl

/-- Programs that go on alike after the same beginning. -/
theorem bind_together {x : Scripted ε σ β} {k' : β → Scripted ε σ α'} {k : β → Scripted ε σ α}
    (h : ∀ b s script, ((k' b).run s script).map f = ((k b).run s script).map g) (s : σ)
    (script : List ε) : ((x >>= k').run s script).map f = ((x >>= k).run s script).map g := by
  rw [run_bind, run_bind]
  cases x.run s script with
  | ret b s' script' => exact h b s' script'
  | waiting s' => rfl

/-- **Two rounds go together**: both leave with the same value, or both go on, related by `R`. -/
inductive Together (f : α' → γ) (g : α → γ) (R : β' → β → Prop) :
    (α' ⊕ β') × σ → (α ⊕ β) × σ → Prop where
  | leave {a' : α'} {a : α} (s : σ) (h : f a' = g a) : Together f g R (.inl a', s) (.inl a, s)
  | again {b' : β'} {b : β} (s : σ) (h : R b' b) : Together f g R (.inr b', s) (.inr b, s)

/-- **Loops whose rounds go together end alike.** -/
theorem loop_together {body' : ε → β' → σ → (α' ⊕ β') × σ} {body : ε → β → σ → (α ⊕ β) × σ}
    {R : β' → β → Prop} (h : ∀ e b' b s, R b' b → Together f g R (body' e b' s) (body e b s))
    {b' : β'} {b : β} (hb : R b' b) (s : σ) (script : List ε) :
    ((loop body' b').run s script).map f = ((loop body b).run s script).map g := by
  show (loop.go body' script b' s).map f = (loop.go body script b s).map g
  induction script generalizing b' b s with
  | nil => rfl
  | cons e script ih =>
    have hround := h e b' b s hb
    unfold loop.go
    rcases hr' : body' e b' s with ⟨a' | b₁', s₁'⟩
    · rcases hr : body e b s with ⟨a | b₁, s₁⟩
      · rw [hr', hr] at hround
        cases hround with
        | leave _ heq => simp only [Progress.map, heq]
      · rw [hr', hr] at hround
        cases hround
    · rcases hr : body e b s with ⟨a | b₁, s₁⟩
      · rw [hr', hr] at hround
        cases hround
      · rw [hr', hr] at hround
        cases hround with
        | again _ hb₁ => exact ih hb₁ _

/-- A loop that returns has used up some of the script. -/
theorem loop_shorter {body : ε → β → σ → (α ⊕ β) × σ} {b : β} {s s' : σ} {script script' : List ε}
    {a : α} (h : loop.go body script b s = .ret a s' script') : script'.length < script.length := by
  induction script generalizing b s with
  | nil => simp [loop.go] at h
  | cons e script ih =>
    unfold loop.go at h
    rcases hr : body e b s with ⟨a₁ | b₁, s₁⟩
    · rw [hr] at h
      simp only [Progress.ret.injEq] at h
      rw [← h.2.2]
      exact Nat.lt_succ_self _
    · rw [hr] at h
      exact Nat.lt_trans (ih h) (Nat.lt_succ_self _)

end Scripted
