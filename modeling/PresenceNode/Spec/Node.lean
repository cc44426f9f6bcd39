import PresenceNode.Spec.Store

/-!
# The store between two threads

The main loop appends, the BLE thread reads. `store_append` holds the lock from its first
write to its last and `store_get` takes it for the read of the slot; `meta.next_seq` is read
without it. So an append is seen in these steps: it takes the lock, writes the record,
moves the counters on, and writes them and lets go.
-/

namespace PresenceNode

variable {ρ : Type}

/-- Where the main loop is in `store_append`; it holds the lock unless idle. -/
inductive AppendPc (ρ : Type) where
  | idle
  | locked (out : ρ)
  | wrote (out : ρ)
  | bumped
  deriving DecidableEq, Repr

/-- A step of the main loop: it calls `store_append`, or goes on in it, with the outcome of
the flash write if there is one to make. -/
inductive MainStep (ρ : Type) where
  | append (rec : ρ) (up : ℕ)
  | go (ok : Bool)

/-- The flash, the static variables, the main loop, and the records stored so far, latest
first. -/
structure Node (ρ : Type) where
  flash : Flash
  ram : Ram
  pc : AppendPc ρ
  log : List ρ

namespace Node

variable (L : Layout ρ)

def step (n : Node ρ) : MainStep ρ → Node ρ
  | .append rec up =>
    match n.pc with
    | .idle => { n with pc := .locked (L.stamp n.ram.counters.nextSeq (storeNow n.ram up) rec) }
    | _ => n
  | .go ok =>
    match n.pc with
    | .idle => n
    | .locked out =>
      if n.ram.mounted && ok then
        { n with
          flash := Function.update n.flash (recId (L.seq out)) (some (L.image out))
          pc := .wrote out
          log := out :: n.log }
      else { n with pc := .idle }
    -- no flash access: the counters move on in RAM, under the lock
    | .wrote out =>
      { n with
        ram := { n.ram with counters := ⟨n.ram.counters.nextSeq + 1, L.ts out⟩ }
        pc := .bumped }
    | .bumped =>
      if n.ram.mounted && ok then
        { n with
          flash := Function.update n.flash nvsIdMeta (some n.ram.counters.image)
          pc := .idle }
      else { n with pc := .idle }

def run (n : Node ρ) (steps : List (MainStep ρ)) : Node ρ := steps.foldl (step L) n

@[simp] theorem run_nil (n : Node ρ) : n.run L [] = n := rfl

@[simp] theorem run_cons (n : Node ρ) (s : MainStep ρ) (ss : List (MainStep ρ)) :
    n.run L (s :: ss) = (n.step L s).run L ss := rfl

/-- The append in progress, if any, runs to its end. -/
def finish (n : Node ρ) : Node ρ := n.run L [.go true, .go true, .go true]

/-- After that the lock is free. -/
theorem finish_idle (n : Node ρ) : (n.finish L).pc = .idle := by
  obtain ⟨fl, ram, pc, log⟩ := n
  obtain ⟨mounted, counters, off, floor⟩ := ram
  cases pc <;> cases mounted <;> rfl

/-- What a write's outcome is as a fate. -/
def fate (ok : Bool) : Fate := if ok then .ok else .fail 0

/-- **The steps are the function**: from an idle main loop, an append step by step ends as
`store_append` does with the same outcomes of its two writes. -/
theorem run_append (n : Node ρ) (hn : n.pc = .idle) (rec : ρ) (up : ℕ) (ok₁ ok₂ : Bool) :
    ∃ rc out fs, (storeAppend L n.ram rec up).run n.flash [fate ok₁, fate ok₂] =
        .ret (rc, (n.run L [.append rec up, .go ok₁, .go true, .go ok₂]).ram, out)
          (n.run L [.append rec up, .go ok₁, .go true, .go ok₂]).flash fs ∧
      (n.run L [.append rec up, .go ok₁, .go true, .go ok₂]).pc = .idle := by
  obtain ⟨fl, ram, pc, log⟩ := n
  obtain ⟨mounted, counters, off, floor⟩ := ram
  simp only at hn
  subst hn
  cases mounted <;> cases ok₁ <;> cases ok₂ <;> exact ⟨_, _, _, rfl, rfl⟩

end Node

end PresenceNode
