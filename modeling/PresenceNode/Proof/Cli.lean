import PresenceNode.Spec.Cli
import Mathlib.Data.List.TakeWhile
import Mathlib.Tactic.Common

/-!
# A configuration line is accepted on its own answer

* `infix_split`: a `Done` does not begin in one answer and end in the next.
* `cliDrain_meets`, `cliWrite_meets`, `newline_meets`, `cliWait_meets`: from the drain on,
  what was read, what is in the ring and what is to come make up what was stale, then the
  answer to the line.
* `cliLine_meets`: so a line is accepted on a stale answer or on its own.
* `configured_own`: if no stale acceptance is to come when the ring is drained, on its own.
* `configured_late`: an answer that comes after its timeout is taken for the next one.
-/

namespace PresenceNode

open Scripted

/-! ## Answers in a row -/

/-- What the demo has still to deliver ends with a prompt. -/
def Ended (out : List UInt8) : Prop := out = [] ∨ out.getLast? = some 0x3E

theorem prompt_ne_nil : radarPrompt ≠ [] := by decide

theorem ended_prompt (bs : List UInt8) : Ended (bs ++ radarPrompt) := by
  right
  rw [List.getLast?_append]
  rfl

theorem ended_suffix {out rest : List UInt8} (h : Ended out) (hsuf : rest <:+ out) :
    Ended rest := by
  obtain ⟨front, rfl⟩ := hsuf
  by_cases hne : rest = []
  · exact Or.inl hne
  · rcases h with h | h
    · exact Or.inl (List.append_eq_nil_iff.1 h).2
    · rw [List.getLast?_append_of_ne_nil _ hne] at h
      exact Or.inr h

theorem ended_append {out bs : List UInt8} (h : Ended bs) (hne : bs ≠ []) :
    Ended (out ++ bs) := by
  rcases h with h | h
  · exact absurd h hne
  · right
    rw [List.getLast?_append, h]
    rfl

/-- **No token is torn**: after a prompt, `Done` is on one side or on the other. -/
theorem infix_split {a b : List UInt8} (ha : Ended a) (h : doneToken <:+: a ++ b) :
    doneToken <:+: a ∨ doneToken <:+: b := by
  rcases List.infix_append_iff_ne_nil.1 h with h | h | ⟨l₁, l₂, hne, -, hl, hsuf, -⟩
  · exact Or.inl h
  · exact Or.inr h
  · -- the last byte before the cut would be the end of a prompt
    exfalso
    obtain ⟨front, rfl⟩ := hsuf
    rcases ha with ha | ha
    · rw [List.append_eq_nil_iff] at ha
      exact hne ha.2
    · rw [List.getLast?_append_of_ne_nil _ hne] at ha
      have hmem : (0x3E : UInt8) ∈ doneToken := by
        rw [hl]
        exact List.mem_append_left _ (List.mem_of_getLast? ha)
      exact absurd hmem (by decide)

/-! ## Waiting -/

theorem arrive_row (c : Cli) (n : ℕ) : (c.arrive n).ring ++ (c.arrive n).out = c.ring ++ c.out := by
  show c.ring ++ c.out.take n ++ c.out.drop n = c.ring ++ c.out
  rw [List.append_assoc, List.take_append_drop]

/-- What the arrival of bytes keeps, a pause keeps. -/
theorem pause_meets {P R : Cli → Prop} (harrive : ∀ c n, P c → P (c.arrive n))
    (hR : ∀ c, P c → R c) : Meets P pause (fun _ => P) R := by
  apply meets_bind (meets_next hR)
  intro m
  apply meets_bind (Q := fun _ => P)
  · exact meets_modify fun c hc => harrive c m.bytes hc
  · exact fun _ => meets_pure fun _ hc => hc

/-- Between two calls of `cli_line`. -/
def Idle (calls : List CliCall) (c : Cli) : Prop := c.calls = calls ∧ Ended c.out

/-- While a line is typed, `stale` is in the ring or still to come. -/
def Typing (calls : List CliCall) (stale : List UInt8) (c : Cli) : Prop :=
  c.calls = calls ∧ c.ring ++ c.out = stale

/-- Once it is typed, `read` was read, and the answer comes after `stale`. -/
def Awaiting (calls : List CliCall) (stale read : List UInt8) (c : Cli) : Prop :=
  c.calls = calls ∧ c.answer ≠ [] ∧ Ended c.answer ∧ read ++ (c.ring ++ c.out) = stale ++ c.answer

/-- The calls so far. -/
def Called (calls : List CliCall) (c : Cli) : Prop := c.calls = calls

variable {calls : List CliCall} {stale : List UInt8} (demo : Demo)

theorem idle_arrive (c : Cli) (n : ℕ) (h : Idle calls c) : Idle calls (c.arrive n) :=
  ⟨h.1, ended_suffix h.2 (List.drop_suffix n c.out)⟩

theorem typing_arrive (c : Cli) (n : ℕ) (h : Typing calls stale c) :
    Typing calls stale (c.arrive n) :=
  ⟨h.1, (arrive_row c n).trans h.2⟩

theorem awaiting_arrive {read : List UInt8} (c : Cli) (n : ℕ) (h : Awaiting calls stale read c) :
    Awaiting calls stale read (c.arrive n) := by
  obtain ⟨hcalls, hne, hend, hrow⟩ := h
  refine ⟨hcalls, hne, hend, ?_⟩
  rw [arrive_row]
  exact hrow

/-! ## One line -/

/-- The ring is empty, and only what the demo has still to deliver is stale. -/
theorem cliDrain_meets :
    Meets (Idle calls) cliDrain (fun _ c => Idle calls c ∧ c.ring = []) (Called calls) := by
  apply meets_bind (pause_meets idle_arrive fun c hc => hc.1)
  intro _
  exact meets_modify fun c hc => ⟨hc, rfl⟩

theorem cliWrite_meets {line : List UInt8} (hline : newline ∉ line) :
    Meets (Typing calls stale) (cliWrite demo line) (fun _ => Typing calls stale)
      (Called calls) := by
  induction line with
  | nil => exact meets_pure fun _ hc => hc
  | cons b line ih =>
    have hb : b ≠ newline := fun hb => hline (by rw [hb]; exact List.mem_cons_self)
    apply meets_bind (Q := fun _ => Typing calls stale)
    · apply meets_modify
      intro c hc
      unfold Cli.pollOut
      rw [if_neg hb]
      exact hc
    · intro _
      apply meets_bind (pause_meets typing_arrive fun c hc => hc.1)
      intro _
      exact ih fun hmem => hline (List.mem_cons_of_mem _ hmem)

/-- **The line is complete**: its answer is the next thing the demo delivers. -/
theorem newline_meets :
    Meets (Typing calls stale) (cliWrite demo [newline]) (fun _ => Awaiting calls stale [])
      (Called calls) := by
  apply meets_bind (Q := fun _ => Awaiting calls stale [])
  · apply meets_modify
    rintro c ⟨hcalls, hrow⟩
    unfold Cli.pollOut
    rw [if_pos rfl]
    refine ⟨hcalls, ?_, ended_prompt _, ?_⟩
    · exact List.append_ne_nil_of_right_ne_nil _ prompt_ne_nil
    · show [] ++ (c.ring ++ (c.out ++ _)) = stale ++ _
      rw [List.nil_append, ← List.append_assoc, hrow]
  · intro _
    apply meets_bind (pause_meets awaiting_arrive fun c hc => hc.1)
    intro _
    exact meets_pure fun _ hc => hc

/-- A token in the buffer is a token in what was read. -/
theorem strstr_infix {buf read s : List UInt8} (hbuf : buf <:+ read) (h : strstr buf s = true) :
    s <:+: read := by
  have hin : s <:+: buf.takeWhile (· ≠ 0) := of_decide_eq_true h
  exact (hin.trans (List.takeWhile_prefix _).isInfix).trans hbuf.isInfix

theorem slide_suffix (buf : List UInt8) : slide buf <:+ buf := by
  unfold slide
  split_ifs
  · exact List.drop_suffix _ _
  · exact List.suffix_rfl

/-- What `cli_wait` has in its buffer and has seen is of what it has read. -/
def Reading (calls : List CliCall) (stale : List UInt8) (st : List UInt8 × Bool) (c : Cli) : Prop :=
  ∃ read, Awaiting calls stale read c ∧ st.1 <:+ read ∧ (st.2 = true → doneToken <:+: read)

/-- **A round of `cli_wait`.** -/
theorem round_reading {deadline : ℕ} {m : Moment} {st : List UInt8 × Bool} {c : Cli}
    (h : Reading calls stale st c) :
    (∃ ok c', cliWaitRound deadline m st c = (.inl ok, c') ∧ ∃ buf, Reading calls stale (buf, ok) c') ∨
      ∃ st' c', cliWaitRound deadline m st c = (.inr st', c') ∧ Reading calls stale st' c' := by
  obtain ⟨read, hwait, hbuf, hseen⟩ := h
  have harrive := awaiting_arrive c m.bytes hwait
  unfold cliWaitRound
  simp only
  split_ifs with hnow
  · cases hring : (c.arrive m.bytes).ring with
    | nil => exact Or.inr ⟨st, _, rfl, read, harrive, hbuf, hseen⟩
    | cons b ring =>
      -- one byte goes from the ring to the buffer
      obtain ⟨hcalls, hne, hend, hrow⟩ := harrive
      have hread : Awaiting calls stale (read ++ [b]) { c.arrive m.bytes with ring := ring } := by
        refine ⟨hcalls, hne, hend, ?_⟩
        rw [hring] at hrow
        simp only [List.append_assoc, List.singleton_append]
        exact hrow
      have hbuf' : st.1 ++ [b] <:+ read ++ [b] := by
        obtain ⟨front, hfront⟩ := hbuf
        exact ⟨front, by rw [← hfront, List.append_assoc]⟩
      have hseen' : (st.2 || strstr (st.1 ++ [b]) doneToken) = true → doneToken <:+: read ++ [b] := by
        intro hor
        rcases Bool.or_eq_true_iff.1 hor with h | h
        · exact List.infix_append_of_infix_left (hseen h)
        · exact strstr_infix hbuf' h
      simp only
      split_ifs with hprompt
      · exact Or.inl ⟨_, _, rfl, st.1 ++ [b], read ++ [b], hread, hbuf', hseen'⟩
      · exact Or.inr ⟨_, _, rfl, read ++ [b], hread, (slide_suffix _).trans hbuf', hseen'⟩
  · exact Or.inl ⟨st.2, _, rfl, st.1, read, harrive, hbuf, hseen⟩

/-- What `cli_wait` returns. -/
theorem cliWait_meets (timeoutMs : ℕ) :
    Meets (Awaiting calls stale []) (cliWait timeoutMs)
      (fun ok c => ∃ buf, Reading calls stale (buf, ok) c) (Called calls) := by
  apply meets_bind (pause_meets awaiting_arrive fun c hc => hc.1)
  intro now
  have hloop : Meets (Reading calls stale ([], false))
      (loop (cliWaitRound (now + timeoutMs)) ([], false))
      (fun ok c => ∃ buf, Reading calls stale (buf, ok) c) (Called calls) := by
    apply meets_loop (Reading calls stale)
    · rintro st c ⟨read, hwait, -⟩
      exact hwait.1
    · intro m st c hc ok c' hround
      rcases round_reading hc with ⟨ok', c'', heq, hbuf⟩ | ⟨st', c'', heq, -⟩
      · rw [hround, Prod.mk.injEq, Sum.inl.injEq] at heq
        obtain ⟨rfl, rfl⟩ := heq
        exact hbuf
      · rw [hround] at heq
        simp at heq
    · intro m st c hc st' c' hround
      rcases round_reading hc with ⟨ok', c'', heq, -⟩ | ⟨st'', c'', heq, hst⟩
      · rw [hround] at heq
        simp at heq
      · rw [hround, Prod.mk.injEq, Sum.inr.injEq] at heq
        obtain ⟨rfl, rfl⟩ := heq
        exact hst
  apply meets_weaken hloop
  · intro c hc
    exact ⟨[], hc, List.suffix_rfl, by simp⟩
  · exact fun _ _ h => h
  · exact fun _ h => h

/-- A line is accepted on a stale answer, or on its own. -/
def CliCall.Sound (call : CliCall) : Prop :=
  call.ok = true → doneToken <:+: call.stale ∨ call.Accepted

/-- What `cli_wait` has read is of stale answers, or of the one to the line. -/
theorem reading_sound {stale : List UInt8} {buf : List UInt8} {ok : Bool} {c : Cli}
    (hstale : Ended stale) (h : Reading calls stale (buf, ok) c) (line : List UInt8) :
    Ended c.out ∧ CliCall.Sound ⟨line, stale, c.answer, ok⟩ := by
  obtain ⟨read, ⟨-, hne, hend, hrow⟩, -, hseen⟩ := h
  refine ⟨?_, ?_⟩
  · have hall : Ended (stale ++ c.answer) := ended_append hend hne
    apply ended_suffix hall
    rw [← hrow, ← List.append_assoc]
    exact List.suffix_append _ _
  · intro hok
    have hrow' : doneToken <:+: stale ++ c.answer := by
      rw [← hrow]
      exact List.infix_append_of_infix_left (hseen hok)
    exact infix_split hstale hrow'

/-- **A call of `cli_line`** is one more call, and a sound one. -/
theorem cliLine_calls (calls : List CliCall) {line : List UInt8} (hline : newline ∉ line)
    (timeoutMs : ℕ) :
    Meets (Idle calls) (cliLine demo line timeoutMs)
      (fun ok c => ∃ call : CliCall, Idle (calls ++ [call]) c ∧ call.line = line ∧ call.ok = ok ∧
        call.Sound)
      (Called calls) := by
  apply meets_bind cliDrain_meets
  intro _
  apply meets_bind meets_get
  intro drained
  apply meets_of_start
  rintro c ⟨rfl, ⟨hcalls, hstale⟩, hring⟩
  have hwrite : Meets (Typing calls drained.out) (cliWrite demo line)
      (fun _ => Typing calls drained.out) (Called calls) := cliWrite_meets demo hline
  apply meets_bind (Q := fun _ => Typing calls drained.out)
  · apply meets_weaken hwrite
    · rintro c rfl
      exact ⟨hcalls, by rw [hring]; rfl⟩
    · exact fun _ _ h => h
    · exact fun _ h => h
  intro _
  apply meets_bind (newline_meets demo)
  intro _
  apply meets_bind (cliWait_meets timeoutMs)
  intro ok
  apply meets_bind (Q := fun _ c => ∃ call : CliCall, Idle (calls ++ [call]) c ∧
    call.line = line ∧ call.ok = ok ∧ call.Sound)
  · apply meets_modify
    rintro c ⟨buf, hread⟩
    obtain ⟨hend, hsound⟩ := reading_sound hstale hread line
    obtain ⟨read, ⟨hcalls', -⟩, -⟩ := hread
    refine ⟨⟨line, drained.out, c.answer, ok⟩, ⟨?_, hend⟩, rfl, rfl, hsound⟩
    show c.calls ++ _ = calls ++ _
    rw [hcalls']
  · exact fun _ => meets_pure fun _ hc => hc

/-! ## The whole script -/

/-- Every call so far is sound. -/
def AllSound (c : Cli) : Prop := ∀ call ∈ c.calls, call.Sound

/-- Between two calls, with those of `before` made. -/
def Between (before : List CliCall) (c : Cli) : Prop :=
  Ended c.out ∧ AllSound c ∧ before ⊆ c.calls

theorem cliLine_meets {before : List CliCall} {line : List UInt8} (hline : newline ∉ line)
    (timeoutMs : ℕ) :
    Meets (Between before) (cliLine demo line timeoutMs)
      (fun ok c => ∃ call : CliCall, Between (before ++ [call]) c ∧ call.line = line ∧
        call.ok = ok)
      AllSound := by
  apply meets_of_start
  rintro c ⟨hend, hall, hsub⟩
  have hline := cliLine_calls demo c.calls hline timeoutMs
  apply meets_weaken hline
  · rintro c' rfl
    exact ⟨rfl, hend⟩
  · rintro ok c' ⟨call, ⟨hcalls, hend'⟩, hl, hok, hsound⟩
    refine ⟨call, ⟨hend', ?_, ?_⟩, hl, hok⟩
    · intro call' hmem
      rw [hcalls] at hmem
      rcases List.mem_append.1 hmem with hmem | hmem
      · exact hall call' hmem
      · rw [List.mem_singleton.1 hmem]
        exact hsound
    · rw [hcalls]
      apply List.append_subset.2
      exact ⟨fun _ h => List.mem_append_left _ (hsub h), List.subset_append_right _ _⟩
  · intro c' hc
    unfold AllSound
    rw [show c'.calls = c.calls from hc]
    exact hall

theorem pause_between {before : List CliCall} :
    Meets (Between before) pause (fun _ => Between before) AllSound := by
  apply pause_meets
  · rintro c n ⟨hend, hall, hsub⟩
    exact ⟨ended_suffix hend (List.drop_suffix n c.out), hall, hsub⟩
  · exact fun c hc => hc.2.1

/-- Whatever NRST does, what is to come ends with a prompt. -/
theorem nrst_between {before : List CliCall} (low : Bool) :
    Meets (Between before) (modify fun c => c.nrst demo low : CliM Unit)
      (fun _ => Between before) AllSound := by
  apply meets_modify
  rintro c ⟨hend, hall, hsub⟩
  unfold Cli.nrst
  cases demo.banner with
  | none => exact ⟨hend, hall, hsub⟩
  | some banner =>
    cases low with
    | true => exact ⟨Or.inl rfl, hall, hsub⟩
    | false => exact ⟨ended_prompt _, hall, hsub⟩

/-- A line whose result nobody looks at. -/
theorem cliLine_between {before : List CliCall} {line : List UInt8} (hline : newline ∉ line)
    (timeoutMs : ℕ) :
    Meets (Between before) (cliLine demo line timeoutMs) (fun _ => Between before) AllSound := by
  apply meets_weaken (cliLine_meets demo hline timeoutMs) (fun _ h => h)
  · rintro ok c ⟨call, ⟨hend, hall, hsub⟩, -⟩
    exact ⟨hend, hall, fun _ h => hsub (List.mem_append_left _ h)⟩
  · exact fun _ h => h

theorem radarReset_meets {before : List CliCall} :
    Meets (Between before) (radarReset demo) (fun _ => Between before) AllSound := by
  apply meets_bind (cliLine_between demo (by decide) 2000)
  intro _
  apply meets_bind (cliLine_between demo (by decide) 2000)
  intro _
  apply meets_bind (nrst_between demo true)
  intro _
  apply meets_bind pause_between
  intro _
  apply meets_bind (nrst_between demo false)
  intro _
  apply meets_bind pause_between
  intro _
  apply meets_bind (Q := fun _ => Between before)
  · apply meets_bind pause_between
    intro _
    exact meets_modify fun c hc => hc
  intro _
  apply meets_bind (cliLine_between demo (by simp) 500)
  exact fun _ => meets_pure fun _ hc => hc

/-- Every `sensorStart` line was accepted. -/
def Started (lines : List (List UInt8)) (c : Cli) : Prop :=
  ∀ line ∈ lines, isStart line = true → ∃ call ∈ c.calls, call.line = line ∧ call.ok = true

/-- **The loop** returns 0 only once every `sensorStart` line was accepted. -/
theorem configure_meets (before : List CliCall) {lines : List (List UInt8)}
    (hlines : ∀ line ∈ lines, newline ∉ line) :
    Meets (Between before) (configure demo lines)
      (fun rc c => (AllSound c ∧ before ⊆ c.calls) ∧ (rc = 0 → Started lines c)) AllSound := by
  induction lines generalizing before with
  | nil => exact meets_pure fun c hc => ⟨hc.2, by simp [Started]⟩
  | cons line lines ih =>
    have hrest : ∀ l ∈ lines, newline ∉ l := fun l hl => hlines l (List.mem_cons_of_mem _ hl)
    apply meets_bind (cliLine_meets demo (hlines line List.mem_cons_self) _)
    intro ok
    apply meets_of_start
    rintro c ⟨call, hbetween, hl, hok⟩
    -- the rest of the lines, if this one was accepted or may be refused
    have hgo : (isStart line = true → ok = true) → Meets (fun s => s = c) (configure demo lines)
        (fun rc c => (AllSound c ∧ before ⊆ c.calls) ∧ (rc = 0 → Started (line :: lines) c))
        AllSound := by
      intro hmay
      apply meets_weaken (ih (before ++ [call]) hrest)
      · rintro s rfl
        exact hbetween
      · rintro rc s ⟨⟨hall, hsub⟩, hstarted⟩
        refine ⟨⟨hall, fun _ h => hsub (List.mem_append_left _ h)⟩, ?_⟩
        intro hrc l hmem hstart
        rcases List.mem_cons.1 hmem with rfl | hmem
        · exact ⟨call, hsub (List.mem_append_right _ List.mem_cons_self), hl,
            hok.trans (hmay hstart)⟩
        · exact hstarted hrc l hmem hstart
      · exact fun _ h => h
    by_cases htrue : ok = true
    · rw [if_pos htrue]
      exact hgo fun _ => htrue
    · rw [if_neg htrue]
      by_cases hstart : isStart line = true
      · rw [if_pos hstart]
        apply meets_pure
        rintro s rfl
        refine ⟨⟨hbetween.2.1, fun _ h => hbetween.2.2 (List.mem_append_left _ h)⟩, ?_⟩
        intro hrc
        exact absurd hrc (by decide)
      · rw [if_neg hstart]
        exact hgo fun h => absurd h hstart

theorem cfgLines_clean : ∀ line ∈ cfgLines, newline ∉ line := by decide +kernel

theorem radarConfigure_meets :
    Meets (Between []) (radarConfigure demo)
      (fun rc c => AllSound c ∧ (rc = 0 → Started cfgLines c)) AllSound := by
  apply meets_bind (radarReset_meets demo)
  intro _
  apply meets_weaken (configure_meets demo [] cfgLines_clean) (fun _ h => h)
  · rintro rc c ⟨⟨hall, -⟩, hstarted⟩
    exact ⟨hall, hstarted⟩
  · exact fun _ h => h

theorem start_between (typed : List UInt8) (earlier : List (List UInt8)) (ring : List UInt8) :
    Between [] (.start typed earlier ring) := by
  refine ⟨?_, fun call hmem => absurd hmem List.not_mem_nil, List.nil_subset _⟩
  show Ended (earlier.flatMap fun bs => bs ++ radarPrompt)
  rcases List.eq_nil_or_concat' earlier with rfl | ⟨front, last, rfl⟩
  · exact Or.inl rfl
  · rw [List.flatMap_append, List.flatMap_singleton, ← List.append_assoc]
    exact ended_prompt _

theorem sensorStart_mem : sensorStart ∈ cfgLines ∧ isStart sensorStart = true := by decide +kernel

/-- **However far it has come**, every call is sound, and 0 is returned only once
`sensorStart` was accepted. -/
theorem configuring_sound (typed : List UInt8) (earlier : List (List UInt8)) (ring : List UInt8)
    (script : List Moment) :
    AllSound (configuring demo typed earlier ring script).state ∧
      ((configuring demo typed earlier ring script).value = some 0 →
        Started cfgLines (configuring demo typed earlier ring script).state) := by
  obtain ⟨hret, hwait⟩ := radarConfigure_meets demo (.start typed earlier ring) script
    (start_between typed earlier ring)
  unfold configuring
  cases hrun : (radarConfigure demo).run (.start typed earlier ring) script with
  | ret rc c script' =>
    obtain ⟨hall, hstarted⟩ := hret rc c script' hrun
    refine ⟨hall, fun hrc => hstarted ?_⟩
    exact Option.some.inj hrc
  | waiting c =>
    refine ⟨hwait c hrun, ?_⟩
    intro hrc
    simp [Progress.value] at hrc

/-- **A line is accepted on its own answer**, in every run in which no acceptance of an
earlier line is still to come when the ring has been drained; and then `radar_configure`
returns 0 only if the demo accepted `sensorStart`. -/
theorem configured_own (demo : Demo) (typed : List UInt8) (earlier : List (List UInt8))
    (ring : List UInt8) (script : List Moment)
    (hfresh : ∀ call ∈ (configuring demo typed earlier ring script).state.calls, call.Fresh) :
    (∀ call ∈ (configuring demo typed earlier ring script).state.calls, call.Own) ∧
      ((configuring demo typed earlier ring script).value = some 0 →
        ∃ call ∈ (configuring demo typed earlier ring script).state.calls,
          call.line = sensorStart ∧ call.Accepted) := by
  obtain ⟨hall, hstarted⟩ := configuring_sound demo typed earlier ring script
  have hown : ∀ call ∈ (configuring demo typed earlier ring script).state.calls, call.Own :=
    fun call hmem hok => (hall call hmem hok).resolve_left (hfresh call hmem)
  refine ⟨hown, ?_⟩
  intro hrc
  obtain ⟨call, hmem, hl, hok⟩ := hstarted hrc sensorStart sensorStart_mem.1 sensorStart_mem.2
  exact ⟨call, hmem, hl, hown call hmem hok⟩

/-! ## An answer that comes late -/

/-- `n` moments at which nothing arrives. -/
def silence (now n : ℕ) : List Moment := List.replicate n ⟨0, now⟩

/-- Calls of `cli_line` without an answer in time; what has come since the one before is
`bytes` long, and drained. -/
def unanswered (bytes : ℕ) : ℕ → List (List UInt8) → List Moment
  | _, [] => []
  | now, line :: lines =>
    ⟨bytes, now⟩ :: silence now (line.length + 2) ++ ⟨0, now + 3000⟩ ::
      unanswered bytes (now + 3200) lines

/-- No answer comes in time until `sensorStart` was sent. -/
def lateScript (bytes : ℕ) : List Moment :=
  unanswered bytes 0 [ascii "sensorStop 0", ascii "sensorWarmRst 0"] ++ silence 6400 3 ++
    unanswered bytes 8500 [[]] ++ unanswered bytes 12000 cfgLines.dropLast ++
    ⟨bytes, 90000⟩ :: silence 90000 (sensorStart.length + 2) ++ ⟨33, 90100⟩ :: silence 90100 33

/-- Answers that come after their timeout are drained, and `sensorStart` is accepted. -/
theorem configured_drained :
    ∃ call ∈ (configuring ⟨fun _ => doneToken, none⟩ [] [] [] (lateScript 200)).state.calls,
      call.line = sensorStart ∧ call.Accepted := by
  have hrun :
      (∀ call ∈ (configuring ⟨fun _ => doneToken, none⟩ [] [] [] (lateScript 200)).state.calls,
        call.Fresh) ∧
      (configuring ⟨fun _ => doneToken, none⟩ [] [] [] (lateScript 200)).value = some 0 := by
    decide +kernel
  exact (configured_own ⟨fun _ => doneToken, none⟩ [] [] [] (lateScript 200) hrun.1).2 hrun.2

/-- **A late answer is taken for the next one**: the demo accepts its first line and no
other, that answer comes only once `sensorStart` was sent, and `radar_configure` returns 0. -/
theorem configured_late :
    (configuring ⟨fun n => if n = 0 then doneToken else ascii "Error", none⟩ [] [] []
      (lateScript 0)).value = some 0 ∧
    ∀ call ∈ (configuring ⟨fun n => if n = 0 then doneToken else ascii "Error", none⟩ [] [] []
      (lateScript 0)).state.calls, call.line = sensorStart → ¬ call.Own ∧ ¬ call.Accepted := by
  decide +kernel

end PresenceNode
