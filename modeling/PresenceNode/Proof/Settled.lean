import Mathlib.Data.List.Nodup
import PresenceNode.Proof.Visible

/-!
# What the work queue comes to

* `own_settled`: the queue's own steps do not change what they will come to.
* `queue_drains`: and they come to an end.
* `adv_settles`: after a press the node is visible, and after an expiry it is not, but for an item
  that keeps its older place in the queue.
-/

namespace PresenceNode

/-- The item that a handler is of. -/
def AdvRunning.work : AdvRunning → AdvWork
  | .on => .on
  | .off => .off
  | .closing => .off

/-- The other item. -/
def AdvWork.other : AdvWork → AdvWork
  | .on => .off
  | .off => .on

namespace Adv

/-- **The work queue's own steps**, with `bt_le_adv_start` returning 0. -/
inductive Own : AdvEvent → Prop where
  | take : Own .take
  | close : Own .close
  | finish : Own (.finish true)

/-- The items ahead, the running one first. -/
def ahead (s : Adv) : List AdvWork := (s.running.map AdvRunning.work).toList ++ s.queue

/-- Whether the node will advertise when they are through: the last item decides. -/
def settled (s : Adv) : Bool := s.ahead.getLast?.elim s.advertising fun w => decide (w = .on)

/-- What the queue's own steps keep, and the flag that they will leave. -/
structure Onward (s s' : Adv) : Prop where
  settled : s'.settled = s.settled
  pressing : s'.pressing = s.pressing
  scheduled : s'.scheduled = s.scheduled
  shut : s.OffPending ∨ s.windowOpen = false → s'.OffPending ∨ s'.windowOpen = false

theorem Onward.refl (s : Adv) : Onward s s := ⟨rfl, rfl, rfl, id⟩

theorem Onward.trans {s₁ s₂ s₃ : Adv} (h : Onward s₁ s₂) (h' : Onward s₂ s₃) : Onward s₁ s₃ :=
  ⟨h'.settled.trans h.settled, h'.pressing.trans h.pressing, h'.scheduled.trans h.scheduled,
    fun hs => h'.shut (h.shut hs)⟩

/-- The queue takes its next item. -/
theorem take_onward {s : Adv} (hr : s.running = none) {w : AdvWork} {queue : List AdvWork}
    (hq : s.queue = w :: queue) {run : AdvRunning} (hw : run.work = w) (hoff : w = .off → run = .off) :
    Onward s { s with running := some run, queue := queue } := by
  have hahead : ({ s with running := some run, queue := queue } : Adv).ahead = s.ahead := by
    simp only [ahead, hr, hq, Option.map_some, hw, Option.map_none]
    rfl
  refine ⟨?_, rfl, rfl, ?_⟩
  · unfold settled
    rw [hahead]
  · rintro (hpend | hopen)
    · left
      rcases hpend with hpend | hpend
      · rw [hq] at hpend
        rcases List.mem_cons.1 hpend with he | hmem
        · exact .inr (congrArg some (hoff he.symm))
        · exact .inl hmem
      · rw [hr] at hpend
        cases hpend
    · exact .inr hopen

/-- A handler ends, and leaves the radio as the item says. -/
theorem finish_onward {s : Adv} {run : AdvRunning} (hr : s.running = some run) (hrun : run ≠ .off)
    {advertising : Bool} (ha : advertising = decide (run.work = .on)) :
    Onward s { s with running := none, advertising := advertising } := by
  refine ⟨?_, rfl, rfl, ?_⟩
  · simp only [settled, ahead, hr, Option.map_some, Option.map_none, Option.toList_some,
      Option.toList_none, List.nil_append, List.cons_append]
    cases hq : s.queue with
    | nil => exact ha
    | cons w queue =>
      rw [List.getLast?_cons_cons]
      rfl
  · rintro (hpend | hopen)
    · rcases hpend with hmem | hoff
      · exact .inl (.inl hmem)
      · rw [hr, Option.some.injEq] at hoff
        exact absurd hoff hrun
    · exact .inr hopen

/-- **The queue's own steps** do not change what they will come to. -/
theorem own_onward {s : Adv} (hp : s.pressing = false) {e : AdvEvent} (he : Own e) :
    Onward s (advMachine.step s e) := by
  have hthread : advMachine.step s e = s.thread e := by
    cases he <;> exact if_neg (by rw [hp]; exact Bool.false_ne_true)
  rw [hthread]
  cases he with
  | take =>
    simp only [thread]
    split
    · rename_i hr hq
      exact take_onward hr hq rfl fun h => by cases h
    · rename_i hr hq
      exact take_onward hr hq rfl fun _ => rfl
    · exact .refl s
  | close =>
    simp only [thread]
    split_ifs with hr
    · refine ⟨?_, rfl, rfl, fun _ => .inr rfl⟩
      simp only [settled, ahead, hr]
      rfl
    · exact .refl s
  | finish =>
    simp only [thread, finish]
    split
    · rename_i hr
      exact finish_onward hr (by decide) (Bool.or_true _)
    · rename_i hr
      exact finish_onward hr (by decide) rfl
    · exact .refl s

theorem run_onward {s : Adv} (hp : s.pressing = false) {own : List AdvEvent}
    (hown : ∀ e ∈ own, Own e) : Onward s (advMachine.run s own) := by
  induction own generalizing s with
  | nil => exact .refl s
  | cons e own ih =>
    have hstep := own_onward hp (hown e List.mem_cons_self)
    exact hstep.trans (ih (hstep.pressing.trans hp) fun e' he' => hown e' (List.mem_cons_of_mem _ he'))

/-! ## The end of the queue -/

/-- What is left to do. -/
def left (s : Adv) : ℕ :=
  4 * s.queue.length + s.running.elim 0 fun | .off => 2 | _ => 1

/-- **The queue is never stuck.** -/
theorem own_moves {s : Adv} (hp : s.pressing = false) (hq : ¬ s.Quiet) :
    ∃ e, Own e ∧ (advMachine.step s e).left < s.left := by
  have hthread : ∀ e, Own e → advMachine.step s e = s.thread e := by
    intro e he
    cases he <;> exact if_neg (by rw [hp]; exact Bool.false_ne_true)
  cases hr : s.running with
  | none =>
    cases hqueue : s.queue with
    | nil => exact absurd ⟨hqueue, hr⟩ hq
    | cons w queue =>
      refine ⟨.take, .take, ?_⟩
      rw [hthread _ .take]
      cases w <;> simp only [thread, left, hr, hqueue, List.length_cons, Option.elim] <;> omega
  | some run =>
    cases run with
    | on =>
      refine ⟨.finish true, .finish, ?_⟩
      rw [hthread _ .finish]
      simp only [thread, finish, left, hr, Option.elim]
      omega
    | off =>
      refine ⟨.close, .close, ?_⟩
      rw [hthread _ .close]
      simp only [thread, left, hr, if_true, Option.elim]
      omega
    | closing =>
      refine ⟨.finish true, .finish, ?_⟩
      rw [hthread _ .finish]
      simp only [thread, finish, left, hr, Option.elim]
      omega

/-- **The queue comes to its end** by steps of its own. -/
theorem queue_drains {s : Adv} (hp : s.pressing = false) :
    ∃ own, (∀ e ∈ own, Own e) ∧ (advMachine.run s own).Quiet := by
  -- induction on what is left to do
  generalize hn : s.left = n
  induction n using Nat.strongRecOn generalizing s with
  | ind n ih =>
    by_cases hq : s.Quiet
    · exact ⟨[], fun _ h => absurd h List.not_mem_nil, hq⟩
    · obtain ⟨e, he, hlt⟩ := own_moves hp hq
      obtain ⟨own, hown, hend⟩ := ih _ (hn ▸ hlt) ((own_onward hp he).pressing.trans hp) rfl
      refine ⟨e :: own, ?_, hend⟩
      intro e' he'
      rcases List.mem_cons.1 he' with rfl | he'
      · exact he
      · exact hown e' he'

/-- At the end of the queue the radio is as its last item says. -/
theorem settled_quiet {s : Adv} (hq : s.Quiet) : s.settled = s.advertising := by
  simp only [settled, ahead, hq.1, hq.2]
  rfl

/-! ## A press, and the end of a window -/

theorem submit_nodup {w : AdvWork} {queue : List AdvWork} (h : queue.Nodup) :
    (submit w queue).Nodup := by
  unfold submit
  split_ifs with hw
  · exact h
  · refine List.nodup_append.2 ⟨h, List.nodup_singleton w, ?_⟩
    intro a ha b hb he
    rw [List.mem_singleton.1 hb] at he
    exact hw (he ▸ ha)

/-- No item is queued twice. -/
theorem step_nodup (s : Adv) (e : AdvEvent) (h : s.queue.Nodup) :
    (advMachine.step s e).queue.Nodup := by
  have hthread : (s.thread e).queue.Nodup := by
    cases e with
    | take =>
      simp only [thread]
      split
      · rename_i hq
        rw [hq] at h
        exact h.of_cons
      · rename_i hq
        rw [hq] at h
        exact h.of_cons
      · exact h
    | finish started =>
      simp only [thread, finish]
      split <;> exact h
    | resubmit =>
      simp only [thread]
      split_ifs
      · exact submit_nodup h
      · exact h
    | close | connected | disconnected =>
      simp only [thread]
      split_ifs <;> exact h
    | press | reschedule | expire => exact h
  show (s.step e).queue.Nodup
  unfold step
  split
  · split_ifs
    · exact h
    · exact submit_nodup h
  · split_ifs <;> exact h
  · split_ifs
    · exact submit_nodup h
    · exact h
  · split_ifs
    · exact h
    · exact hthread

theorem run_nodup (evs : List AdvEvent) : (advMachine.run idle evs).queue.Nodup :=
  Machine.run_keeps (M := advMachine) step_nodup List.nodup_nil evs

/-- **The last item of the queue** after a submission is the one submitted, unless it was queued
before the other. -/
theorem submit_last {queue : List AdvWork} (h : queue.Nodup) (w : AdvWork) :
    (submit w queue).getLast? = some w ↔ queue ≠ [w, w.other] := by
  rcases queue with _ | ⟨a, _ | ⟨b, _ | ⟨c, queue⟩⟩⟩
  · simp [submit]
  · cases a <;> cases w <;> simp [submit]
  · cases a <;> cases b <;> cases w <;> simp_all [submit, AdvWork.other]
  · cases a <;> cases b <;> cases c <;> simp at h

/-- **After a submission** the radio ends up as the item says, unless it was queued before the
other. -/
theorem settled_submit {s s' : Adv} (h : s.queue.Nodup) {w : AdvWork}
    (hq : s'.queue = submit w s.queue) :
    s'.settled = decide (w = .on) ↔ s.queue ≠ [w, w.other] := by
  have hne : submit w s.queue ≠ [] := List.ne_nil_of_mem (mem_submit.2 (.inl rfl))
  have hlast : s'.ahead.getLast? = (submit w s.queue).getLast? := by
    rw [ahead, hq, List.getLast?_append_of_ne_nil _ hne]
  rw [← submit_last h, settled, hlast, List.getLast?_eq_some_getLast hne]
  cases (submit w s.queue).getLast hne <;> cases w <;> simp

/-- **A press** makes the node advertise in the end, and schedules the end of the window. -/
theorem press_settles {s pressed : Adv} (hp : s.pressing = false) (hn : s.queue.Nodup)
    (hpressed : pressed = advMachine.step (advMachine.step s .press) .reschedule) :
    (∃ own, (∀ e ∈ own, Own e) ∧ (advMachine.run pressed own).Quiet) ∧
      ∀ own, (∀ e ∈ own, Own e) → (advMachine.run pressed own).Quiet →
        (advMachine.run pressed own).scheduled = true ∧
          ((advMachine.run pressed own).advertising = true ↔ s.queue ≠ [.on, .off]) := by
  have hpress : pressed =
      { s with windowOpen := true, queue := submit .on s.queue, pressing := false, scheduled := true } := by
    rw [hpressed]
    show (s.step .press).step .reschedule = _
    simp only [step, hp, Bool.false_eq_true, if_false, if_true]
  have hon := settled_submit hn (show pressed.queue = submit .on s.queue by rw [hpress])
  have hp' : pressed.pressing = false := by rw [hpress]
  refine ⟨queue_drains hp', fun own hown hq => ?_⟩
  have hrun := run_onward hp' hown
  rw [hrun.scheduled, ← settled_quiet hq, hrun.settled]
  exact ⟨by rw [hpress], hon⟩

/-- **The expiry** ends the window, and makes the node invisible in the end. -/
theorem expiry_settles {s expired : Adv} (hp : s.pressing = false) (hn : s.queue.Nodup)
    (hsched : s.scheduled = true) (hexpired : expired = advMachine.step s .expire) :
    (∃ own, (∀ e ∈ own, Own e) ∧ (advMachine.run expired own).Quiet) ∧
      ∀ own, (∀ e ∈ own, Own e) → (advMachine.run expired own).Quiet →
        (advMachine.run expired own).scheduled = false ∧
          (advMachine.run expired own).windowOpen = false ∧
          ((advMachine.run expired own).advertising = false ↔ s.queue ≠ [.off, .on]) := by
  have hexpire : expired = { s with scheduled := false, queue := submit .off s.queue } := by
    rw [hexpired]
    exact if_pos hsched
  have hoff := settled_submit hn (show expired.queue = submit .off s.queue by rw [hexpire])
  have hp' : expired.pressing = false := by rw [hexpire, ← hp]
  refine ⟨queue_drains hp', fun own hown hq => ?_⟩
  have hrun := run_onward hp' hown
  have hpend : expired.OffPending := by
    rw [hexpire]
    exact .inl (mem_submit.2 (.inl rfl))
  refine ⟨by rw [hrun.scheduled, hexpire], ?_, ?_⟩
  · -- nothing is pending at the end, so the flag was cleared
    rcases hrun.shut (.inl hpend) with (hmem | hoff') | hclosed
    · rw [hq.1] at hmem
      cases hmem
    · rw [hq.2] at hoff'
      cases hoff'
    · exact hclosed
  · rw [← settled_quiet hq, hrun.settled]
    exact hoff

/-- **The button and the timer have their way.** From any state that any run comes to, with no press
half way through, the work queue comes to its end by itself, and so it does after a press or an
expiry. With `bt_le_adv_start` returning 0, after a press the node advertises, and its window will
expire, unless `adv_on_work` was already queued before `adv_off_work`; after the expiry it does not
and the window is closed, unless `adv_off_work` was already queued before `adv_on_work`. -/
theorem adv_settles {evs : List AdvEvent} (hp : (advMachine.run idle evs).pressing = false) :
    (∃ own, (∀ e ∈ own, Own e) ∧ (advMachine.run idle (evs ++ own)).Quiet) ∧
      (∃ own, (∀ e ∈ own, Own e) ∧
        (advMachine.run idle (evs ++ (.press :: .reschedule :: own))).Quiet) ∧
      (∀ own, (∀ e ∈ own, Own e) →
        (advMachine.run idle (evs ++ (.press :: .reschedule :: own))).Quiet →
        (advMachine.run idle (evs ++ (.press :: .reschedule :: own))).scheduled = true ∧
        ((advMachine.run idle (evs ++ (.press :: .reschedule :: own))).advertising = true ↔
          (advMachine.run idle evs).queue ≠ [.on, .off])) ∧
      ((advMachine.run idle evs).scheduled = true →
        (∃ own, (∀ e ∈ own, Own e) ∧ (advMachine.run idle (evs ++ (.expire :: own))).Quiet) ∧
        ∀ own, (∀ e ∈ own, Own e) → (advMachine.run idle (evs ++ (.expire :: own))).Quiet →
          (advMachine.run idle (evs ++ (.expire :: own))).scheduled = false ∧
          (advMachine.run idle (evs ++ (.expire :: own))).windowOpen = false ∧
          ((advMachine.run idle (evs ++ (.expire :: own))).advertising = false ↔
            (advMachine.run idle evs).queue ≠ [.off, .on])) := by
  simp only [Machine.run_append, Machine.run_cons]
  obtain ⟨hdrain, hpress⟩ := press_settles hp (run_nodup evs) rfl
  exact ⟨queue_drains hp, hdrain, hpress, fun hsched => expiry_settles hp (run_nodup evs) hsched rfl⟩

/-- A press while the window of an earlier one ends. -/
theorem adv_settles_late : ∃ own, (∀ e ∈ own, Own e) ∧ (advMachine.run idle
    ([.press, .reschedule, .take, .finish true, .expire] ++ (.press :: .reschedule :: own))).Quiet ∧
    (advMachine.run idle ([.press, .reschedule, .take, .finish true, .expire] ++
      (.press :: .reschedule :: own))).advertising = true := by
  obtain ⟨-, ⟨own, hown, hq⟩, hall, -⟩ :=
    adv_settles (show (advMachine.run idle
      [.press, .reschedule, .take, .finish true, .expire]).pressing = false by decide)
  exact ⟨own, hown, hq, (hall own hown hq).2.2 (by decide)⟩

end Adv

end PresenceNode
