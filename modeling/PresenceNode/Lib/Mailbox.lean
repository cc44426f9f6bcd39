import PresenceNode.Lib.Machine

/-!
# A variable handed over with a binary semaphore

One side stores a value and then gives the semaphore; the other takes the semaphore, reads
the variable some time later, and answers what it read. Giving a semaphore that is given
already changes nothing, and a value may be stored before the last one was read.

* `step_moves`: what an event can do.
* `run_sound`: in every run there are no more answers than posts, each answer is the latest
  post of the time it was read, and the last post of all is read by somebody.
* `run_serial`: when nothing is posted before all is answered, the answers are the posts.
-/

/-- What the answering side is at: a value it has read is held with the number of posts by
then. -/
inductive MailPhase (α : Type) where
  | waiting
  | taken
  | holding (value : α) (stamp : ℕ)

/-- **The mailbox**: the variable, what was posted, whether a post is still to give the
semaphore, the semaphore, the answering side and its answers. -/
structure Mailbox (α : Type) where
  slot : α
  posted : List α
  giving : Bool
  flag : Bool
  phase : MailPhase α
  answers : List (α × ℕ)

inductive MailEvent (α : Type) where
  | post (value : α)
  | give
  | take
  | read
  | answer

namespace Mailbox

variable {α : Type}

def empty (slot : α) : Mailbox α := ⟨slot, [], false, false, .waiting, []⟩

def step (b : Mailbox α) : MailEvent α → Mailbox α
  | .post v =>
    if b.giving then b else { b with slot := v, posted := b.posted ++ [v], giving := true }
  | .give => if b.giving then { b with giving := false, flag := true } else b
  | .take =>
    match b.phase with
    | .waiting => if b.flag then { b with phase := .taken, flag := false } else b
    | _ => b
  | .read =>
    match b.phase with
    | .taken => { b with phase := .holding b.slot b.posted.length }
    | _ => b
  | .answer =>
    match b.phase with
    | .holding v n => { b with phase := .waiting, answers := b.answers ++ [(v, n)] }
    | _ => b

end Mailbox

def mailboxMachine (α : Type) : Machine (Mailbox α) (MailEvent α) := ⟨Mailbox.step⟩

namespace MailPhase

variable {α : Type}

/-- What has been read and not answered. -/
def held : MailPhase α → List (α × ℕ)
  | holding v n => [(v, n)]
  | _ => []

/-- What is owed, if a read gives `slot`. -/
def due (slot : α) : MailPhase α → List α
  | waiting => []
  | taken => [slot]
  | holding v _ => [v]

end MailPhase

namespace Mailbox

variable {α : Type} {b : Mailbox α}

/-- Everything read so far. -/
def reads (b : Mailbox α) : List (α × ℕ) := b.answers ++ b.phase.held

/-- The answers still owed, were nothing more posted. -/
def due (b : Mailbox α) : List α :=
  (if b.giving then [b.slot] else []) ++ (if b.flag then [b.slot] else []) ++ b.phase.due b.slot

/-- Nothing is under way. -/
def Quiet (b : Mailbox α) : Prop := b.phase = .waiting ∧ b.flag = false ∧ b.giving = false

theorem due_quiet (h : b.Quiet) : b.due = [] := by
  obtain ⟨hphase, hflag, hgiving⟩ := h
  unfold due
  rw [hphase, hflag, hgiving]
  rfl

theorem reads_none (h : b.phase.held = []) : b.reads = b.answers := by
  unfold reads
  rw [h]
  exact List.append_nil _

theorem reads_waiting (h : b.phase = .waiting) : b.reads = b.answers := by
  apply reads_none
  rw [h]
  rfl

/-- **What an event can do**: leave the mailbox alone, or one of these. -/
inductive Moves (b : Mailbox α) : MailEvent α → Mailbox α → Prop
  | stay (e : MailEvent α) : Moves b e b
  | post (v : α) (hgiving : b.giving = false) :
      Moves b (.post v) { b with slot := v, posted := b.posted ++ [v], giving := true }
  | give (hgiving : b.giving = true) : Moves b .give { b with giving := false, flag := true }
  | take (hphase : b.phase = .waiting) (hflag : b.flag = true) :
      Moves b .take { b with phase := .taken, flag := false }
  | read (hphase : b.phase = .taken) :
      Moves b .read { b with phase := .holding b.slot b.posted.length }
  | answer (v : α) (n : ℕ) (hphase : b.phase = .holding v n) :
      Moves b .answer { b with phase := .waiting, answers := b.answers ++ [(v, n)] }

theorem step_moves (b : Mailbox α) (e : MailEvent α) : Moves b e (b.step e) := by
  cases e with
  | post v =>
    simp only [step]
    split_ifs with hgiving
    · exact .stay _
    · exact .post v (Bool.eq_false_iff.2 hgiving)
  | give =>
    simp only [step]
    split_ifs with hgiving
    · exact .give hgiving
    · exact .stay _
  | take =>
    simp only [step]
    split
    next hphase =>
      split_ifs with hflag
      · exact .take hphase hflag
      · exact .stay _
    next => exact .stay _
  | read =>
    simp only [step]
    split
    next hphase => exact .read hphase
    next => exact .stay _
  | answer =>
    simp only [step]
    split
    next v n hphase => exact .answer v n hphase
    next => exact .stay _

/-! ## Every run -/

/-- **The invariant.** -/
structure Sound (b : Mailbox α) : Prop where
  slot : ∀ v, b.posted.getLast? = some v → v = b.slot
  count : b.answers.length + b.due.length ≤ b.posted.length
  latest : ∀ a ∈ b.reads, a.2 ≤ b.posted.length ∧ (b.posted.take a.2).getLast? = some a.1
  inOrder : (b.reads.map Prod.snd).Pairwise (· ≤ ·)
  /-- The last post is read, unless a read is still to come. -/
  last : b.posted ≠ [] → b.giving = false → b.flag = false → b.phase ≠ .taken →
    ∃ a, b.reads.getLast? = some a ∧ a.2 = b.posted.length

theorem empty_sound (slot : α) : Sound (empty slot) where
  slot := by intro v h; simp [empty] at h
  count := by simp [empty, due, MailPhase.due]
  latest := by intro a h; simp [empty, reads, MailPhase.held] at h
  inOrder := by simp [empty, reads, MailPhase.held]
  last := by intro h; simp [empty] at h

theorem post_sound (h : Sound b) (hgiving : b.giving = false) (v : α) :
    Sound { b with slot := v, posted := b.posted ++ [v], giving := true } where
  slot := by
    intro w hw
    simp only [List.getLast?_append, List.getLast?_singleton, Option.some_or,
      Option.some.injEq] at hw
    exact hw.symm
  count := by
    have hc := h.count
    have hdue : (due { b with slot := v, posted := b.posted ++ [v], giving := true }).length =
        b.due.length + 1 := by
      unfold due
      rw [hgiving]
      cases hf : b.flag <;> cases hp : b.phase <;> simp [MailPhase.due]
    rw [hdue]
    simp only [List.length_append, List.length_singleton]
    omega
  latest := by
    intro a ha
    obtain ⟨hle, hval⟩ := h.latest a ha
    refine ⟨?_, ?_⟩
    · rw [List.length_append]
      omega
    · show ((b.posted ++ [v]).take a.2).getLast? = some a.1
      rw [List.take_append_of_le_length hle]
      exact hval
  inOrder := h.inOrder
  last := by intro _ hg; simp at hg

theorem give_sound (h : Sound b) (hgiving : b.giving = true) :
    Sound { b with giving := false, flag := true } where
  slot := h.slot
  count := by
    have hc := h.count
    have hdue : (due { b with giving := false, flag := true }).length ≤ b.due.length := by
      unfold due
      rw [hgiving]
      cases hf : b.flag <;> simp
    simp only
    omega
  latest := h.latest
  inOrder := h.inOrder
  last := by intro _ _ hf; simp at hf

theorem take_sound (h : Sound b) (hphase : b.phase = .waiting) (hflag : b.flag = true) :
    Sound { b with phase := .taken, flag := false } where
  slot := h.slot
  count := by
    have hc := h.count
    have hdue : (due { b with phase := .taken, flag := false }).length = b.due.length := by
      unfold due
      rw [hflag, hphase]
      simp [MailPhase.due]
    rw [hdue]
    exact hc
  latest := by
    have hl := h.latest
    rw [reads_waiting hphase] at hl
    intro a ha
    simp only [reads, MailPhase.held, List.append_nil] at ha
    exact hl a ha
  inOrder := by
    have ho := h.inOrder
    rw [reads_waiting hphase] at ho
    simp only [reads, MailPhase.held, List.append_nil]
    exact ho
  last := by intro _ _ _ hp; simp at hp

theorem read_sound (h : Sound b) (hphase : b.phase = .taken) :
    Sound { b with phase := .holding b.slot b.posted.length } := by
  have hreads : b.reads = b.answers := reads_none (by rw [hphase]; rfl)
  -- a request was taken, so something was posted
  have hc := h.count
  have hpos : 0 < b.posted.length := by
    unfold due at hc
    rw [hphase] at hc
    simp only [MailPhase.due, List.length_append, List.length_singleton] at hc
    omega
  have hlast : b.posted.getLast? = some b.slot := by
    rcases hv : b.posted.getLast? with _ | v
    · rw [List.getLast?_eq_none_iff.1 hv] at hpos
      simp at hpos
    · rw [h.slot v hv]
  have hnow : reads { b with phase := .holding b.slot b.posted.length } =
      b.answers ++ [(b.slot, b.posted.length)] := rfl
  have hlatest := h.latest
  have hord := h.inOrder
  rw [hreads] at hlatest hord
  refine ⟨h.slot, ?_, ?_, ?_, ?_⟩
  · have hdue : (due { b with phase := .holding b.slot b.posted.length }).length =
        b.due.length := by
      unfold due
      rw [hphase]
      simp [MailPhase.due]
    rw [hdue]
    exact h.count
  · intro a ha
    rw [hnow] at ha
    rcases List.mem_append.1 ha with ha | ha
    · exact hlatest a ha
    · rw [List.mem_singleton.1 ha]
      refine ⟨Nat.le_refl _, ?_⟩
      show (b.posted.take b.posted.length).getLast? = some b.slot
      rw [List.take_length]
      exact hlast
  · rw [hnow, List.map_append, List.pairwise_append]
    refine ⟨hord, by simp, ?_⟩
    intro n hn m hm
    obtain ⟨a, ha, rfl⟩ := List.mem_map.1 hn
    rw [List.map_singleton, List.mem_singleton] at hm
    rw [hm]
    exact (hlatest a ha).1
  · intro _ _ _ _
    rw [hnow]
    exact ⟨_, List.getLast?_concat, rfl⟩

theorem answer_sound (h : Sound b) {v : α} {n : ℕ} (hphase : b.phase = .holding v n) :
    Sound { b with phase := .waiting, answers := b.answers ++ [(v, n)] } := by
  have hreads : reads { b with phase := .waiting, answers := b.answers ++ [(v, n)] } =
      b.reads := by
    unfold reads
    rw [hphase]
    exact List.append_nil _
  have hc := h.count
  refine ⟨h.slot, ?_, ?_, ?_, ?_⟩
  · have hdue : (due { b with phase := .waiting, answers := b.answers ++ [(v, n)] }).length + 1 =
        b.due.length := by
      unfold due
      rw [hphase]
      simp only [MailPhase.due, List.length_append, List.length_singleton, List.length_nil,
        Nat.add_zero]
    simp only [List.length_append, List.length_singleton]
    omega
  · rw [hreads]
    exact h.latest
  · rw [hreads]
    exact h.inOrder
  · intro hne hg hf _
    rw [hreads]
    exact h.last hne hg hf (by rw [hphase]; simp)

/-- **Every event keeps the invariant.** -/
theorem step_sound (b : Mailbox α) (e : MailEvent α) (h : Sound b) : Sound (b.step e) := by
  have hm := step_moves b e
  generalize b.step e = b' at hm ⊢
  cases hm with
  | stay => exact h
  | post v hgiving => exact post_sound h hgiving v
  | give hgiving => exact give_sound h hgiving
  | take hphase hflag => exact take_sound h hphase hflag
  | read hphase => exact read_sound h hphase
  | answer v n hphase => exact answer_sound h hphase

theorem run_sound (slot : α) (evs : List (MailEvent α)) :
    Sound ((mailboxMachine α).run (empty slot) evs) :=
  Machine.run_keeps step_sound (empty_sound slot) evs

/-! ## One at a time -/

/-- Nothing is posted before all is answered. -/
def Serial (b : Mailbox α) : MailEvent α → Prop
  | .post _ => b.Quiet
  | _ => True

/-- Everything posted is answered, in order, but for the one answer owed. -/
structure Exact (b : Mailbox α) : Prop where
  posted : b.posted = b.answers.map Prod.fst ++ b.due
  one : b.due.length ≤ 1

theorem empty_exact (slot : α) : Exact (empty slot) := ⟨rfl, Nat.zero_le 1⟩

/-- What is owed goes from hand to hand. -/
theorem exact_of_due {b' : Mailbox α} (h : Exact b) (hposted : b'.posted = b.posted)
    (hanswers : b'.answers = b.answers) (hdue : b'.due = b.due) : Exact b' := by
  refine ⟨?_, ?_⟩
  · rw [hposted, hanswers, hdue]
    exact h.posted
  · rw [hdue]
    exact h.one

theorem post_exact (h : Exact b) (hquiet : b.Quiet) (v : α) :
    Exact { b with slot := v, posted := b.posted ++ [v], giving := true } := by
  have hposted := h.posted
  rw [due_quiet hquiet, List.append_nil] at hposted
  obtain ⟨hphase, hflag, -⟩ := hquiet
  have hdue : due { b with slot := v, posted := b.posted ++ [v], giving := true } = [v] := by
    unfold due
    rw [hphase, hflag]
    rfl
  refine ⟨?_, ?_⟩
  · rw [hdue]
    show b.posted ++ [v] = b.answers.map Prod.fst ++ [v]
    rw [← hposted]
  · rw [hdue]
    exact Nat.le_refl 1

theorem give_exact (h : Exact b) (hgiving : b.giving = true) :
    Exact { b with giving := false, flag := true } := by
  -- the semaphore was not given already: nothing else is owed
  have hone := h.one
  unfold due at hone
  rw [hgiving] at hone
  have hflag : b.flag = false := by
    cases hf : b.flag with
    | false => rfl
    | true => rw [hf] at hone; simp at hone
  refine exact_of_due h rfl rfl ?_
  unfold due
  rw [hgiving, hflag]
  rfl

theorem take_exact (h : Exact b) (hphase : b.phase = .waiting) (hflag : b.flag = true) :
    Exact { b with phase := .taken, flag := false } := by
  refine exact_of_due h rfl rfl ?_
  unfold due
  rw [hphase, hflag]
  simp [MailPhase.due]

theorem read_exact (h : Exact b) (hphase : b.phase = .taken) :
    Exact { b with phase := .holding b.slot b.posted.length } := by
  refine exact_of_due h rfl rfl ?_
  unfold due
  rw [hphase]
  rfl

/-- The answer was all that was owed. -/
theorem answer_exact (h : Exact b) {v : α} {n : ℕ} (hphase : b.phase = .holding v n) :
    Exact { b with phase := .waiting, answers := b.answers ++ [(v, n)] } := by
  have hposted := h.posted
  have hone := h.one
  have hdue : b.due = due { b with phase := .waiting, answers := b.answers ++ [(v, n)] } ++
      [v] := by
    unfold due
    rw [hphase]
    simp [MailPhase.due]
  rw [hdue] at hposted hone
  rw [List.length_append, List.length_singleton] at hone
  have hnil : due { b with phase := .waiting, answers := b.answers ++ [(v, n)] } = [] :=
    List.length_eq_zero_iff.1 (by omega)
  refine ⟨?_, ?_⟩
  · rw [hnil] at hposted ⊢
    rw [List.append_nil, List.map_append]
    exact hposted
  · rw [hnil]
    exact Nat.zero_le 1

/-- **Every serial event keeps it exact.** -/
theorem step_exact (b : Mailbox α) (e : MailEvent α) (h : Exact b) (hg : b.Serial e) :
    Exact (b.step e) := by
  have hm := step_moves b e
  generalize b.step e = b' at hm ⊢
  cases hm with
  | stay => exact h
  | post v hgiving => exact post_exact h hg v
  | give hgiving => exact give_exact h hgiving
  | take hphase hflag => exact take_exact h hphase hflag
  | read hphase => exact read_exact h hphase
  | answer v n hphase => exact answer_exact h hphase

/-- **One at a time, the answers are the posts.** -/
theorem run_serial (slot : α) {evs : List (MailEvent α)}
    (hg : (mailboxMachine α).Guarded Serial (empty slot) evs)
    (hq : ((mailboxMachine α).run (empty slot) evs).Quiet) :
    ((mailboxMachine α).run (empty slot) evs).answers.map Prod.fst =
      ((mailboxMachine α).run (empty slot) evs).posted := by
  have h := Machine.run_invariant (M := mailboxMachine α) step_exact (empty_exact slot) hg
  rw [h.posted, due_quiet hq, List.append_nil]

end Mailbox
