import Mathlib.Data.List.Infix
import PresenceNode.Lib.Machine

/-!
# A bounded queue between a producer and a consumer

The producer offers a block and is told how much of it was taken; the consumer asks for some
number of symbols. An implementation is known by its contents. `Booked` keeps the books of one:
what was offered, kept and fetched, how many offers were cut short, and how much was offered
since the queue last stood empty.

* `Books`: what is fetched and what is still held is what was kept, in order; what was kept is
  what was offered, less the ends of the short offers.
* `run_books`: over every run.
* `run_whole`: a consumer that empties the queue before it is full loses nothing.
* `run_since`: after the last short offer, what is offered is kept.
-/

/-- **A bounded queue**: a put takes what fits, a get takes from the front. -/
structure Fifo (α σ : Type) (cap : ℕ) where
  empty : σ
  items : σ → List α
  put : σ → List α → ℕ × σ
  get : σ → ℕ → List α × σ
  items_empty : items empty = []
  put_count : ∀ s xs, (put s xs).1 = min xs.length (cap - (items s).length)
  put_items : ∀ s xs, items (put s xs).2 = items s ++ xs.take (put s xs).1
  get_out : ∀ s n, (get s n).1 = (items s).take n
  get_items : ∀ s n, items (get s n).2 = (items s).drop n

namespace Fifo

variable {α σ : Type} {cap : ℕ}

/-- The queue whose state is its contents. -/
def ofList (α : Type) (cap : ℕ) : Fifo α (List α) cap where
  empty := []
  items s := s
  put s xs := (min xs.length (cap - s.length), s ++ xs.take (min xs.length (cap - s.length)))
  get s n := (s.take n, s.drop n)
  items_empty := rfl
  put_count _ _ := rfl
  put_items _ _ := rfl
  get_out _ _ := rfl
  get_items _ _ := rfl

/-- What a producer and a consumer do. -/
inductive Call (α : Type) where
  | offer (xs : List α)
  | fetch (n : ℕ)
  deriving DecidableEq, Repr

/-- **A queue and its books.** -/
structure Booked (α σ : Type) where
  queue : σ
  offered : List α
  kept : List α
  fetched : List α
  short : ℕ
  backlog : ℕ

variable (F : Fifo α σ cap)

def booked : Booked α σ := ⟨F.empty, [], [], [], 0, 0⟩

/-- A block is offered. -/
def offer (b : Booked α σ) (xs : List α) : Booked α σ where
  queue := (F.put b.queue xs).2
  offered := b.offered ++ xs
  kept := b.kept ++ xs.take (F.put b.queue xs).1
  fetched := b.fetched
  short := if (F.put b.queue xs).1 < xs.length then b.short + 1 else b.short
  backlog := b.backlog + xs.length

/-- Up to `n` symbols are fetched. -/
def fetch (b : Booked α σ) (n : ℕ) : Booked α σ :=
  { b with
    queue := (F.get b.queue n).2
    fetched := b.fetched ++ (F.get b.queue n).1
    backlog := if F.items (F.get b.queue n).2 = [] then 0 else b.backlog }

def step (b : Booked α σ) : Call α → Booked α σ
  | .offer xs => F.offer b xs
  | .fetch n => F.fetch b n

def machine : Machine (Booked α σ) (Call α) := ⟨F.step⟩

/-- **The books balance**, with blocks of at most `block` symbols. -/
structure Books (block : ℕ) (b : Booked α σ) : Prop where
  order : b.fetched ++ F.items b.queue = b.kept
  sub : b.kept.Sublist b.offered
  whole : b.short = 0 → b.kept = b.offered
  lost : b.kept.length + b.short ≤ b.offered.length
  lost_le : b.offered.length ≤ b.kept.length + block * b.short
  fits : (F.items b.queue).length ≤ cap
  behind : (F.items b.queue).length ≤ b.backlog

variable {F} {b : Booked α σ} {xs : List α} {block n : ℕ}

theorem put_whole (h : (F.items b.queue).length + xs.length ≤ cap) :
    (F.put b.queue xs).1 = xs.length := by
  rw [F.put_count]
  omega

theorem offer_books (h : F.Books block b) (hxs : xs.length ≤ block) :
    F.Books block (F.offer b xs) := by
  have hcount := F.put_count b.queue xs
  have hfits := h.fits
  have hbehind := h.behind
  have hlost := h.lost
  have hlost_le := h.lost_le
  have htake : (xs.take (F.put b.queue xs).1).length = (F.put b.queue xs).1 := by
    rw [List.length_take]
    omega
  have hitems : (F.items (F.put b.queue xs).2).length =
      (F.items b.queue).length + (F.put b.queue xs).1 := by
    rw [F.put_items, List.length_append, htake]
  constructor
  · show b.fetched ++ F.items (F.put b.queue xs).2 = _
    rw [F.put_items, ← List.append_assoc, h.order]
    rfl
  · exact h.sub.append (List.take_sublist _ _)
  · intro hz
    simp only [offer] at hz ⊢
    split_ifs at hz with hs
    rw [h.whole hz, List.take_of_length_le (by omega)]
  · simp only [offer, List.length_append, htake]
    split_ifs with hs <;> omega
  · simp only [offer, List.length_append, htake]
    split_ifs with hs
    · rw [Nat.mul_succ]
      omega
    · omega
  · simp only [offer]
    omega
  · simp only [offer]
    omega

theorem fetch_books (h : F.Books block b) : F.Books block (F.fetch b n) := by
  have hlen : (F.items (F.get b.queue n).2).length ≤ (F.items b.queue).length := by
    rw [F.get_items, List.length_drop]
    omega
  refine ⟨?_, h.sub, h.whole, h.lost, h.lost_le, hlen.trans h.fits, ?_⟩
  · simp only [fetch]
    rw [F.get_out, F.get_items, List.append_assoc, List.take_append_drop, h.order]
  · simp only [fetch]
    split_ifs with hnil
    · rw [hnil]
      exact Nat.le_refl 0
    · exact hlen.trans h.behind

theorem booked_books : F.Books block F.booked := by
  constructor <;> simp [booked, F.items_empty]

variable (F)

/-- No block is longer than `block`. -/
def Blocks (block : ℕ) (_ : Booked α σ) : Call α → Prop
  | .offer xs => xs.length ≤ block
  | .fetch _ => True

/-- **The consumer keeps up**: no more was offered since the queue stood empty than it holds. -/
def Paced (b : Booked α σ) : Call α → Prop
  | .offer xs => (F.offer b xs).backlog ≤ cap
  | .fetch _ => True

variable {F}

theorem run_books {calls : List (Call α)} (h : F.Books block b)
    (hb : F.machine.Guarded (Blocks block) b calls) : F.Books block (F.machine.run b calls) := by
  refine Machine.run_invariant ?_ h hb
  intro b call h hg
  cases call with
  | offer xs => exact offer_books h hg
  | fetch n => exact fetch_books h

/-- **Nothing is lost** while the consumer keeps up. -/
theorem run_whole {calls : List (Call α)} (h : F.Books block b) (hz : b.short = 0)
    (hb : F.machine.Guarded (Blocks block) b calls) (hp : F.machine.Guarded F.Paced b calls) :
    (F.machine.run b calls).short = 0 := by
  induction calls generalizing b with
  | nil => exact hz
  | cons call calls ih =>
    cases call with
    | offer xs =>
      refine ih (offer_books h hb.1) ?_ hb.2 hp.2
      have hroom : b.backlog + xs.length ≤ cap := hp.1
      have hbehind := h.behind
      have hwhole : (F.put b.queue xs).1 = xs.length := put_whole (by omega)
      show (if (F.put b.queue xs).1 < xs.length then b.short + 1 else b.short) = 0
      rw [if_neg (by omega), hz]
    | fetch n => exact ih (fetch_books h) hz hb.2 hp.2

theorem short_le (calls : List (Call α)) (b : Booked α σ) :
    b.short ≤ (F.machine.run b calls).short := by
  induction calls generalizing b with
  | nil => exact Nat.le_refl _
  | cons call calls ih =>
    have hstep : b.short ≤ (F.step b call).short := by
      cases call with
      | offer xs =>
        simp only [step, offer]
        split_ifs <;> omega
      | fetch n => exact Nat.le_refl _
    exact hstep.trans (ih _)

/-- **Since the last short offer** all that was offered was kept. -/
theorem run_since {calls : List (Call α)} (h : (F.machine.run b calls).short = b.short) :
    ∃ since, (F.machine.run b calls).offered = b.offered ++ since ∧
      (F.machine.run b calls).kept = b.kept ++ since := by
  induction calls generalizing b with
  | nil => exact ⟨[], (List.append_nil _).symm, (List.append_nil _).symm⟩
  | cons call calls ih =>
    rw [Machine.run_cons] at h ⊢
    have hrest := short_le (F := F) calls (F.step b call)
    cases call with
    | offer xs =>
      have hall : ¬ (F.put b.queue xs).1 < xs.length := by
        intro hlt
        have hshort : (F.step b (.offer xs)).short = b.short + 1 := if_pos hlt
        have hrun : (F.machine.run (F.step b (.offer xs)) calls).short = b.short := h
        omega
      have hkeep : (F.step b (.offer xs)).short = b.short := if_neg hall
      obtain ⟨since, ho, hk⟩ := ih (b := F.step b (.offer xs)) (h.trans hkeep.symm)
      refine ⟨xs ++ since, ?_, ?_⟩
      · refine ho.trans ?_
        exact List.append_assoc _ _ _
      · refine hk.trans ?_
        show b.kept ++ xs.take _ ++ since = _
        rw [List.take_of_length_le (by omega), List.append_assoc]
    | fetch n => exact ih (b := F.fetch b n) h

end Fifo
