import PresenceNode.Spec.Adv

/-!
# The advertising window bounds visibility

* `Sound`: no `adv_on_work` waits behind a pending `adv_off_work`, and unless one is
  pending, whatever advertises or is about to is inside an open window whose end is
  scheduled.
* `press_sound` to `finish_sound`: the events keep it; `step_sound`: each guarded event does.
* `adv_bounded`: in a guarded run the window bounds visibility.
* `adv_stays_on`: unguarded, a disconnect between the expiry and `adv_off_fn` is enough for
  the node to advertise with the window closed.
-/

namespace PresenceNode

namespace Adv

theorem mem_submit {w w' : AdvWork} {queue : List AdvWork} :
    w' ∈ submit w queue ↔ w' = w ∨ w' ∈ queue := by
  unfold submit
  split_ifs with h
  · constructor
    · intro h'
      exact Or.inr h'
    · rintro (rfl | h')
      · exact h
      · exact h'
  · rw [List.mem_append, List.mem_singleton, or_comm]

/-- The invariant of a guarded run. -/
structure Sound (s : Adv) : Prop where
  order : s.queue = [] ∨ s.queue = [.on] ∨ s.queue = [.off] ∨ s.queue = [.on, .off]
  alone : s.running = some .off → .on ∉ s.queue
  ends : s.windowOpen = true → ¬ s.OffPending → s.scheduled = true ∨ s.pressing = true
  coming : .on ∈ s.queue ∨ s.running = some .on → ¬ s.OffPending → s.windowOpen = true
  seen : s.advertising = true → s.running ≠ some .closing → ¬ s.OffPending → s.windowOpen = true
  pressed : s.pressing = true → .on ∈ s.queue

theorem idle_sound : Sound idle where
  order := Or.inl rfl
  alone := by intro h; simp [idle] at h
  ends := by intro h; simp [idle] at h
  coming := by intro h; simp [idle] at h
  seen := by intro h; simp [idle] at h
  pressed := by intro h; simp [idle] at h

/-! ## The queue -/

/-- `adv_on_work` is submitted with nothing pending, or is there already. -/
theorem order_on {s : Adv} (h : Sound s) (hg : .on ∈ s.queue ∨ ¬ s.OffPending) :
    submit .on s.queue = [.on] ∨ submit .on s.queue = [.on, .off] := by
  rcases h.order with hq | hq | hq | hq
  · rw [hq]; exact Or.inl rfl
  · rw [hq]; exact Or.inl rfl
  · -- a lone `adv_off_work` is what the guard excludes
    exfalso
    rcases hg with hg | hg
    · rw [hq] at hg; simp at hg
    · exact hg (Or.inl (by rw [hq]; simp))
  · rw [hq]; exact Or.inr rfl

theorem order_off {s : Adv} (h : Sound s) :
    submit .off s.queue = [.off] ∨ submit .off s.queue = [.on, .off] := by
  rcases h.order with hq | hq | hq | hq
  · rw [hq]; exact Or.inl rfl
  · rw [hq]; exact Or.inr rfl
  · rw [hq]; exact Or.inl rfl
  · rw [hq]; exact Or.inr rfl

/-- With `adv_on_work` submitted, what is pending is what was. -/
theorem pending_on {s s' : Adv} (hq : s'.queue = submit .on s.queue) (hr : s'.running = s.running) :
    s'.OffPending ↔ s.OffPending := by
  unfold OffPending
  rw [hq, hr, mem_submit]
  simp

/-! ## The events -/

theorem press_sound {s : Adv} (h : Sound s) (hg : s.Guard .press) :
    Sound { s with pressing := true, windowOpen := true, queue := submit .on s.queue } where
  order := by
    rcases order_on h hg with hq | hq
    · exact Or.inr (Or.inl hq)
    · exact Or.inr (Or.inr (Or.inr hq))
  alone := by
    intro hr hon
    rcases hg with hq | hq
    · exact h.alone hr hq
    · exact hq (Or.inr hr)
  ends := fun _ _ => Or.inr rfl
  coming := fun _ _ => rfl
  seen := fun _ _ _ => rfl
  pressed := fun _ => mem_submit.2 (Or.inl rfl)

theorem reschedule_sound {s : Adv} (h : Sound s) :
    Sound { s with pressing := false, scheduled := true } where
  order := h.order
  alone := h.alone
  ends := fun _ _ => Or.inl rfl
  coming := h.coming
  seen := h.seen
  pressed := by intro hp; simp at hp

theorem expire_sound {s : Adv} (h : Sound s) :
    Sound { s with scheduled := false, queue := submit .off s.queue } := by
  have hpend : ({ s with scheduled := false, queue := submit .off s.queue } : Adv).OffPending :=
    Or.inl (mem_submit.2 (Or.inl rfl))
  refine ⟨?_, ?_, ?_, ?_, ?_, ?_⟩
  · rcases order_off h with hq | hq
    · exact Or.inr (Or.inr (Or.inl hq))
    · exact Or.inr (Or.inr (Or.inr hq))
  · intro hr hon
    rcases mem_submit.1 hon with he | hon
    · simp at he
    · exact h.alone hr hon
  · exact fun _ hn => absurd hpend hn
  · exact fun _ hn => absurd hpend hn
  · exact fun _ _ hn => absurd hpend hn
  · exact fun hp => mem_submit.2 (Or.inr (h.pressed hp))

/-- The work queue takes `adv_on_work`. -/
theorem take_on_sound {s : Adv} {queue : List AdvWork} (h : Sound s) (hp : s.pressing = false)
    (hq : s.queue = .on :: queue) (hr : s.running = none) :
    Sound { s with running := some .on, queue := queue } := by
  have hpend : ({ s with running := some .on, queue := queue } : Adv).OffPending ↔
      s.OffPending := by
    unfold OffPending
    rw [hq, hr]
    simp
  have hon : .on ∈ s.queue := by rw [hq]; simp
  refine ⟨?_, ?_, ?_, ?_, ?_, ?_⟩
  · rcases h.order with ho | ho | ho | ho
    · rw [hq] at ho; simp at ho
    · rw [hq, List.cons.injEq] at ho; exact Or.inl ho.2
    · rw [hq] at ho; simp at ho
    · rw [hq, List.cons.injEq] at ho; exact Or.inr (Or.inr (Or.inl ho.2))
  · intro he; simp at he
  · exact fun ho hn => h.ends ho (fun h' => hn (hpend.2 h'))
  · exact fun _ hn => h.coming (Or.inl hon) (fun h' => hn (hpend.2 h'))
  · exact fun _ _ hn => h.coming (Or.inl hon) (fun h' => hn (hpend.2 h'))
  · intro hp'; rw [show s.pressing = true from hp'] at hp; simp at hp

/-- The work queue takes `adv_off_work`: nothing waits behind it. -/
theorem take_off_sound {s : Adv} {queue : List AdvWork} (h : Sound s) (hp : s.pressing = false)
    (hq : s.queue = .off :: queue) : Sound { s with running := some .off, queue := queue } := by
  have hnil : queue = [] := by
    rcases h.order with ho | ho | ho | ho
    · rw [hq] at ho; simp at ho
    · rw [hq] at ho; simp at ho
    · rw [hq, List.cons.injEq] at ho; exact ho.2
    · rw [hq] at ho; simp at ho
  have hpend : ({ s with running := some .off, queue := queue } : Adv).OffPending := Or.inr rfl
  refine ⟨Or.inl hnil, ?_, ?_, ?_, ?_, ?_⟩
  · intro _ hon
    rw [show queue = [] from hnil] at hon
    simp at hon
  · exact fun _ hn => absurd hpend hn
  · exact fun _ hn => absurd hpend hn
  · exact fun _ _ hn => absurd hpend hn
  · intro hp'; rw [show s.pressing = true from hp'] at hp; simp at hp

/-- `adv_off_fn` clears the flag: no `adv_on_work` was submitted for it. -/
theorem close_sound {s : Adv} (h : Sound s) (hr : s.running = some .off) :
    Sound { s with running := some .closing, windowOpen := false } where
  order := h.order
  alone := by intro he; simp at he
  ends := by intro ho; simp at ho
  coming := by
    rintro (hon | he)
    · exact absurd hon (h.alone hr)
    · simp at he
  seen := fun _ hne => absurd rfl hne
  pressed := h.pressed

/-- The end of a function other than `adv_off_fn` leaves what is pending. -/
theorem offPending_idle {s : Adv} (hr : s.running ≠ some .off) (advertising : Bool) :
    ({ s with running := none, advertising := advertising } : Adv).OffPending ↔ s.OffPending := by
  unfold OffPending
  simp [hr]

/-- `adv_on_fn` ends, and the node may advertise. -/
theorem finish_on_sound {s : Adv} (h : Sound s) (hr : s.running = some .on) (started : Bool) :
    Sound { s with running := none, advertising := s.advertising || started } := by
  have hpend := offPending_idle (s := s) (by rw [hr]; simp) (s.advertising || started)
  refine ⟨h.order, ?_, ?_, ?_, ?_, h.pressed⟩
  · intro he; simp at he
  · exact fun ho hn => h.ends ho (fun h' => hn (hpend.2 h'))
  · exact fun _ hn => h.coming (Or.inr hr) (fun h' => hn (hpend.2 h'))
  · exact fun _ _ hn => h.coming (Or.inr hr) (fun h' => hn (hpend.2 h'))

/-- `adv_off_fn` ends, and the node does not advertise. -/
theorem finish_closing_sound {s : Adv} (h : Sound s) (hr : s.running = some .closing) :
    Sound { s with running := none, advertising := false } := by
  have hpend := offPending_idle (s := s) (by rw [hr]; simp) false
  refine ⟨h.order, ?_, ?_, ?_, ?_, h.pressed⟩
  · intro he; simp at he
  · exact fun ho hn => h.ends ho (fun h' => hn (hpend.2 h'))
  · rintro (hon | he) hn
    · exact h.coming (Or.inl hon) (fun h' => hn (hpend.2 h'))
    · simp at he
  · intro he; simp at he

theorem connected_sound {s : Adv} (h : Sound s) : Sound { s with advertising := false } where
  order := h.order
  alone := h.alone
  ends := h.ends
  coming := h.coming
  seen := by intro he; simp at he
  pressed := h.pressed

theorem leaving_sound {s : Adv} (h : Sound s) (l : Bool) : Sound { s with leaving := l } where
  order := h.order
  alone := h.alone
  ends := h.ends
  coming := h.coming
  seen := h.seen
  pressed := h.pressed

theorem resubmit_sound {s : Adv} (h : Sound s)
    (hg : .on ∈ s.queue ∨ (s.windowOpen = true ∧ ¬ s.OffPending)) :
    Sound { s with leaving := false, queue := submit .on s.queue } := by
  have hpend : ({ s with leaving := false, queue := submit .on s.queue } : Adv).OffPending ↔
      s.OffPending := pending_on rfl rfl
  refine ⟨?_, ?_, ?_, ?_, ?_, ?_⟩
  · rcases order_on h (hg.imp_right And.right) with hq | hq
    · exact Or.inr (Or.inl hq)
    · exact Or.inr (Or.inr (Or.inr hq))
  · intro hr _
    rcases hg with hq | hq
    · exact h.alone hr hq
    · exact hq.2 (Or.inr hr)
  · exact fun ho hn => h.ends ho (fun h' => hn (hpend.2 h'))
  · intro _ hn
    rcases hg with hq | hq
    · exact h.coming (Or.inl hq) (fun h' => hn (hpend.2 h'))
    · exact hq.1
  · exact fun ha hr hn => h.seen ha hr (fun h' => hn (hpend.2 h'))
  · exact fun hp => mem_submit.2 (Or.inr (h.pressed hp))

/-! ## Runs -/

/-- An event of the threads keeps the invariant. -/
theorem thread_sound {s : Adv} (h : Sound s) (hp : s.pressing = false) (e : AdvEvent)
    (hg : s.Guard e) : Sound (s.thread e) := by
  cases e with
  | take =>
    simp only [thread]
    split
    · rename_i queue hr hq
      exact take_on_sound h hp hq hr
    · rename_i queue hr hq
      exact take_off_sound h hp hq
    · exact h
  | close =>
    simp only [thread]
    split_ifs with hr
    · exact close_sound h hr
    · exact h
  | finish started =>
    simp only [thread, finish]
    split
    · rename_i hr
      exact finish_on_sound h hr started
    · rename_i hr
      exact finish_closing_sound h hr
    · exact h
  | connected =>
    simp only [thread]
    split_ifs
    · exact h
    · exact connected_sound h
  | disconnected =>
    simp only [thread]
    split_ifs
    · exact h
    · exact leaving_sound h _
  | resubmit =>
    simp only [thread]
    split_ifs with hl
    · exact resubmit_sound h (hg hl)
    · exact h
  | press => exact h
  | reschedule => exact h
  | expire => exact h

/-- **Every guarded event keeps the invariant.** -/
theorem step_sound (s : Adv) (e : AdvEvent) (h : Sound s) (hg : s.Guard e) :
    Sound (advMachine.step s e) := by
  have hthread : s.pressing = false → Sound (s.thread e) := fun hp => thread_sound h hp e hg
  show Sound (s.step e)
  unfold step
  split
  · split_ifs
    · exact h
    · exact press_sound h hg
  · split_ifs
    · exact reschedule_sound h
    · exact h
  · split_ifs
    · exact expire_sound h
    · exact h
  · split_ifs with hp
    · exact h
    · exact hthread (by simpa using hp)

theorem sound_bounded {s : Adv} (h : Sound s) : s.Bounded := by
  rintro ⟨hq, hr⟩ ha
  have hn : ¬ s.OffPending := by
    unfold OffPending
    rw [hq, hr]
    simp
  have hopen := h.seen ha (by rw [hr]; simp) hn
  refine ⟨hopen, ?_⟩
  rcases h.ends hopen hn with hs | hp
  · exact hs
  · have hon := h.pressed hp
    rw [hq] at hon
    simp at hon

/-- **In a guarded run the window bounds visibility.** -/
theorem adv_bounded {evs : List AdvEvent} (hg : advMachine.Guarded Guard idle evs) :
    (advMachine.run idle evs).Bounded :=
  sound_bounded (Machine.run_invariant step_sound idle_sound hg)

/-- A press, a session inside the window, and the end of the window. -/
def session : List AdvEvent :=
  [.press, .reschedule, .take, .finish true, .connected, .disconnected, .resubmit, .take,
    .finish true, .expire, .take, .close, .finish false]

theorem adv_bounded_session : (advMachine.run idle session).Bounded := adv_bounded (by decide)

/-- A session that ends when the window has expired and `adv_off_fn` is yet to run. -/
def lateLeave : List AdvEvent :=
  [.press, .reschedule, .take, .finish true, .connected, .expire, .disconnected, .resubmit,
    .take, .close, .finish false, .take, .finish true]

/-- **Unguarded, the node stays visible**: advertising, with the window closed and no end
scheduled. -/
theorem adv_stays_on : ¬ ∀ evs : List AdvEvent, (advMachine.run idle evs).Bounded := by
  intro hall
  have hclosed := (hall lateLeave ⟨by decide, by decide⟩ (by decide)).1
  exact absurd hclosed (by decide)

end Adv

end PresenceNode
