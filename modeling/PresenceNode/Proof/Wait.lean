import PresenceNode.Proof.Cli
import PresenceNode.Spec.Wait

/-!
# What `cli_wait` recognises

* `byte_spec`: a byte is never written outside an array, and does to the list of bytes in `buf`
  what `cliWaitRound` says.
* `cliWaitBuf_run`: so `cliWait` is `cli_wait`, for any contents of the arrays.
* `promptWait_reads`: what `promptWait` reads.
* `cliWait_go`: the two agree exactly as long as no zero byte hides a token.
* `cliWaitBuf_recognises`: when `cli_wait` recognises its tokens.
-/

namespace PresenceNode

/-! ## Arrays -/

section Arrays

variable {size : ℕ} {v : Vector UInt8 size}

theorem put_some {i : ℕ} (h : i < size) (b : UInt8) :
    ∃ w, put v i b = some w ∧ w.toList = v.toList.set i b :=
  ⟨v.set i b h, dif_pos h, Vector.toList_set h⟩

/-- A write after a known beginning. -/
theorem put_next {held junk : List UInt8} {x : UInt8} (h : v.toList = held ++ x :: junk)
    (b : UInt8) : ∃ w, put v held.length b = some w ∧ w.toList = held ++ b :: junk := by
  have hlt : held.length < size := by
    have hlen := congrArg List.length h
    simp only [Vector.length_toList, List.length_append, List.length_cons] at hlen
    omega
  obtain ⟨w, hw, hlist⟩ := put_some (v := v) hlt b
  refine ⟨w, hw, ?_⟩
  rw [hlist, h, List.set_append_right _ _ le_rfl, Nat.sub_self, List.set_cons_zero]

/-- `n` bytes have been moved. -/
theorem moveDown_some (v : Vector UInt8 size) {src n : ℕ} (h : src + n ≤ size) :
    ∃ w, moveDown v src n = some w ∧
      w.toList = (v.toList.drop src).take n ++ v.toList.drop n := by
  induction n with
  | zero => exact ⟨v, rfl, by simp⟩
  | succ n ih =>
    obtain ⟨w, hw, hlist⟩ := ih (by omega)
    have hsrc : src + n < v.toList.length := by
      rw [Vector.length_toList]
      omega
    have hn : n < v.toList.length := by omega
    have hlen : ((v.toList.drop src).take n).length = n := by
      rw [List.length_take, List.length_drop]
      omega
    rw [List.drop_eq_getElem_cons hn] at hlist
    obtain ⟨w', hw', hlist'⟩ := put_next hlist v.toList[src + n]
    rw [hlen] at hw'
    refine ⟨w', ?_, ?_⟩
    · rw [moveDown, hw, List.getElem?_eq_getElem hsrc]
      exact hw'
    · have htake : (v.toList.drop src).take (n + 1) =
          (v.toList.drop src).take n ++ [v.toList[src + n]] := by
        rw [List.take_add_one, List.getElem?_drop, List.getElem?_eq_getElem hsrc]
        rfl
      rw [hlist', htake, List.append_assoc]
      rfl

/-- **A search ends** at the terminator. -/
theorem cStrstr_some {held junk : List UInt8} (h : v.toList = held ++ 0 :: junk)
    (s : List UInt8) : cStrstr v s = some (strstr held s) := by
  have hmem : (0 : UInt8) ∈ v.toList := by
    rw [h]
    simp
  have hend : (held ++ 0 :: junk).takeWhile (fun b => decide (b ≠ 0)) =
      held.takeWhile fun b => decide (b ≠ 0) := by
    rw [List.takeWhile_append]
    split_ifs with hfull
    · rw [List.takeWhile_cons_of_neg (by simp), List.append_nil]
      exact ((List.takeWhile_prefix _).eq_of_length hfull).symm
    · rfl
  rw [cStrstr, if_pos hmem, h]
  unfold strstr
  rw [hend]

end Arrays

/-! ## A byte -/

theorem note_some (rx : CliRx) (b : UInt8) : ∃ rx', rx.note b = some rx' := by
  unfold CliRx.note
  by_cases hn : rx.n.toNat < cliRxHeadSize - 1
  · rw [if_pos hn]
    have h1 : rx.n.toNat < cliRxHeadSize := by omega
    have h2 : rx.n.toNat + 1 < cliRxHeadSize := by omega
    obtain ⟨head, hhead, -⟩ := put_some (v := rx.head) h1 (if 0x20 ≤ b ∧ b < 0x7F then b else 0x2E)
    obtain ⟨head', hhead', -⟩ := put_some (v := head) h2 0
    rw [hhead]
    simp only [Option.bind_eq_bind, Option.bind_some, hhead']
    exact ⟨_, rfl⟩
  · rw [if_neg hn]
    exact ⟨_, rfl⟩

/-- **The variables hold** some bytes, and whether the token was seen. -/
structure CliVars.Holds (v : CliVars) (st : List UInt8 × Bool) : Prop where
  fill : v.fill = st.1.length
  room : st.1.length < cliBufSize - 1
  done : v.done = st.2
  /-- The bytes are terminated; what follows does not matter. -/
  buf : ∃ junk, v.buf.toList = st.1 ++ 0 :: junk

theorem init_holds (buf : Vector UInt8 cliBufSize) (head : Vector UInt8 cliRxHeadSize) :
    ∃ v, CliVars.init buf head = some v ∧ v.Holds ([], false) := by
  obtain ⟨buf', hbuf, hlist⟩ := put_some (v := buf) (by decide : 0 < cliBufSize) 0
  obtain ⟨head', hhead, -⟩ := put_some (v := head) (by decide : 0 < cliRxHeadSize) 0
  refine ⟨⟨buf', 0, false, ⟨0, head'⟩⟩, ?_, rfl, by decide, rfl, ?_⟩
  · unfold CliVars.init
    rw [hbuf, hhead]
    rfl
  · have hlen : buf.toList.length = cliBufSize := Vector.length_toList
    cases hb : buf.toList with
    | nil => rw [hb] at hlen; simp at hlen
    | cons x junk =>
      refine ⟨junk, ?_⟩
      rw [hlist, hb]
      rfl

/-- The buffer after a byte, terminated again. -/
theorem append_holds {v : CliVars} {st : List UInt8 × Bool} (h : v.Holds st) (b : UInt8) :
    ∃ w w' junk, put v.buf v.fill b = some w ∧ put w (v.fill + 1) 0 = some w' ∧
      w'.toList = (st.1 ++ [b]) ++ 0 :: junk := by
  obtain ⟨junk, hjunk⟩ := h.buf
  obtain ⟨w, hw, hlist⟩ := put_next hjunk b
  have hroom := h.room
  have hlen := congrArg List.length hjunk
  simp only [Vector.length_toList, List.length_append, List.length_cons, cliBufSize] at hlen
  cases junk with
  | nil =>
    simp only [cliBufSize] at hroom
    simp only [List.length_nil] at hlen
    omega
  | cons x junk =>
    have hsplit : w.toList = (st.1 ++ [b]) ++ x :: junk := by
      rw [hlist, List.append_assoc]
      rfl
    obtain ⟨w', hw', hlist'⟩ := put_next hsplit 0
    rw [List.length_append, List.length_singleton] at hw'
    rw [h.fill]
    exact ⟨w, w', junk, hw, hw', hlist'⟩

theorem slide_length {buf : List UInt8} (hfull : buf.length = cliBufSize - 1) :
    (slide buf).length = 16 := by
  unfold slide
  rw [if_pos hfull.ge, List.length_drop]
  simp only [cliBufSize] at hfull
  omega

/-- A full buffer slides. -/
theorem slide_holds {w : Vector UInt8 cliBufSize} {buf junk : List UInt8}
    (h : w.toList = buf ++ 0 :: junk) (hfull : buf.length = cliBufSize - 1) :
    ∃ w' w'' junk', moveDown w (buf.length - 16) 16 = some w' ∧ put w' 16 0 = some w'' ∧
      w''.toList = slide buf ++ 0 :: junk' := by
  have hslide : slide buf = buf.drop (buf.length - 16) := if_pos hfull.ge
  have hlen := slide_length hfull
  have hbound : buf.length - 16 + 16 ≤ cliBufSize := by
    rw [hfull]
    decide
  obtain ⟨w', hw', hlist⟩ := moveDown_some w hbound
  have htail : (w.toList.drop (buf.length - 16)).take 16 = slide buf := by
    rw [h, List.drop_append_of_le_length (by omega), ← hslide, ← hlen, List.take_left]
  have hrest : 16 < w.toList.length := by
    rw [Vector.length_toList]
    decide
  rw [htail, List.drop_eq_getElem_cons hrest] at hlist
  obtain ⟨w'', hw'', hlist'⟩ := put_next hlist 0
  rw [hlen] at hw''
  exact ⟨w', w'', _, hw', hw'', hlist'⟩

/-- **A byte** is written inside the arrays, and the buffer is searched and slides as the list
of its bytes does. -/
theorem byte_spec {v : CliVars} {st : List UInt8 × Bool} (h : v.Holds st) (b : UInt8) :
    if strstr (st.1 ++ [b]) radarPrompt = true then
      ∃ rx, v.byte b = some (.inl (st.2 || strstr (st.1 ++ [b]) doneToken, rx))
    else ∃ v', v.byte b = some (.inr v') ∧
      v'.Holds (slide (st.1 ++ [b]), st.2 || strstr (st.1 ++ [b]) doneToken) := by
  obtain ⟨rx, hrx⟩ := note_some v.rx b
  obtain ⟨w, w', junk, hw, hw', hlist⟩ := append_holds h b
  have hbyte : v.byte b =
      if strstr (st.1 ++ [b]) radarPrompt = true then
        some (.inl (st.2 || strstr (st.1 ++ [b]) doneToken, rx))
      else if v.fill + 1 ≥ cliBufSize - 1 then do
        let buf ← moveDown w' (v.fill + 1 - 16) 16
        let buf ← put buf 16 0
        return .inr ⟨buf, 16, st.2 || strstr (st.1 ++ [b]) doneToken, rx⟩
      else some (.inr ⟨w', v.fill + 1, st.2 || strstr (st.1 ++ [b]) doneToken, rx⟩) := by
    unfold CliVars.byte
    rw [hrx]
    simp only [Option.bind_eq_bind, Option.bind_some, hw, hw', cStrstr_some hlist, h.done]
    -- the token is not searched for again
    cases st.2 with
    | false => rfl
    | true => rfl
  have hsucc : (st.1 ++ [b]).length = st.1.length + 1 := by
    rw [List.length_append, List.length_singleton]
  have hlen : v.fill + 1 = (st.1 ++ [b]).length := by rw [h.fill, hsucc]
  have hroom := h.room
  rw [hbyte, hlen]
  by_cases hprompt : strstr (st.1 ++ [b]) radarPrompt = true
  · rw [if_pos hprompt, if_pos hprompt]
    exact ⟨rx, rfl⟩
  · rw [if_neg hprompt, if_neg hprompt]
    by_cases hfull : (st.1 ++ [b]).length ≥ cliBufSize - 1
    · have heq : (st.1 ++ [b]).length = cliBufSize - 1 := by omega
      obtain ⟨u, u', junk', hu, hu', hslid⟩ := slide_holds hlist heq
      have hlen16 := slide_length heq
      rw [if_pos hfull, hu]
      simp only [Option.bind_eq_bind, Option.bind_some, hu']
      refine ⟨_, rfl, hlen16.symm, ?_, rfl, junk', hslid⟩
      rw [hlen16]
      decide
    · have hkeep : slide (st.1 ++ [b]) = st.1 ++ [b] := if_neg hfull
      rw [if_neg hfull, hkeep]
      exact ⟨_, rfl, rfl, Nat.lt_of_not_le hfull, rfl, junk, hlist⟩

/-! ## The loop -/

theorem round_together (deadline : ℕ) (m : Moment) (v : CliVars) (st : List UInt8 × Bool) (c : Cli)
    (h : v.Holds st) :
    Scripted.Together (Option.map Prod.fst) some CliVars.Holds (cliWaitBufRound deadline m v c)
      (cliWaitRound deadline m st c) := by
  unfold cliWaitBufRound cliWaitRound
  simp only
  by_cases hm : m.now < deadline
  · rw [if_pos hm, if_pos hm]
    cases hring : (c.arrive m.bytes).ring with
    | nil => exact .again _ h
    | cons b ring =>
      have hspec := byte_spec h b
      simp only
      split_ifs at hspec ⊢ with hprompt
      · obtain ⟨rx, hbyte⟩ := hspec
        rw [hbyte]
        exact .leave _ rfl
      · obtain ⟨v', hbyte, hv'⟩ := hspec
        rw [hbyte]
        exact .again _ hv'
  · rw [if_neg hm, if_neg hm]
    exact .leave _ (congrArg some h.done)

/-- **`cliWait` is `cli_wait`**, whatever the arrays hold at first. -/
theorem cliWaitBuf_run (buf : Vector UInt8 cliBufSize) (head : Vector UInt8 cliRxHeadSize)
    (timeoutMs : ℕ) (c : Cli) (script : List Moment) :
    ((cliWaitBuf buf head timeoutMs).run c script).map (Option.map Prod.fst) =
      ((cliWait timeoutMs).run c script).map some := by
  obtain ⟨v, hv, hholds⟩ := init_holds buf head
  unfold cliWaitBuf cliWait
  rw [hv]
  apply Scripted.bind_together
  intro now s script'
  exact Scripted.loop_together (fun m v st c hst => round_together _ m v st c hst) hholds s script'

/-! ## What is read -/

/-- **From the link `c`, `r` was read**: everything up to the first prompt, in order, and
nothing after it. -/
structure ReadTo (c : Cli) (r : Bool × List UInt8) (c' : Cli) : Prop where
  stream : c.ring ++ c.out = r.2 ++ (c'.ring ++ c'.out)
  seen : r.1 = true ↔ doneToken <:+: r.2
  first : ∀ xs, xs <+: r.2 → radarPrompt <:+: xs → xs = r.2

/-- From the link `c`, `xs` was read and there was no prompt in it. -/
structure ReadSoFar (c : Cli) (xs : List UInt8) (c' : Cli) : Prop where
  stream : c.ring ++ c.out = xs ++ (c'.ring ++ c'.out)
  waits : ¬ radarPrompt <:+: xs

theorem ReadSoFar.arrive {c c' : Cli} {xs : List UInt8} (h : ReadSoFar c xs c') (n : ℕ) :
    ReadSoFar c xs (c'.arrive n) := by
  refine ⟨?_, h.waits⟩
  rw [h.stream]
  unfold Cli.arrive
  rw [List.append_assoc c'.ring, List.take_append_drop]

/-- Where nothing was completed, the end is the deadline. -/
theorem ReadSoFar.stop {c c' : Cli} {xs : List UInt8} (h : ReadSoFar c xs c') :
    ReadTo c (decide (doneToken <:+: xs), xs) c' :=
  ⟨h.stream, decide_eq_true_iff, fun _ hpre hin => absurd (hin.trans hpre.isInfix) h.waits⟩

/-- The byte that completes the prompt. -/
theorem ReadSoFar.complete {c c' : Cli} {xs ring : List UInt8} {b : UInt8} (h : ReadSoFar c xs c')
    (hring : c'.ring = b :: ring) :
    ReadTo c (decide (doneToken <:+: xs ++ [b]), xs ++ [b]) { c' with ring := ring } := by
  refine ⟨?_, decide_eq_true_iff, ?_⟩
  · rw [h.stream, hring]
    simp
  · intro ys hpre hin
    rcases List.prefix_concat_iff.1 hpre with heq | hpre
    · exact heq
    · exact absurd (hin.trans hpre.isInfix) h.waits

theorem waits_go {xs : List UInt8} {b : UInt8} (h : ¬ radarPrompt <:+: xs)
    (hprompt : ¬ radarPrompt <:+ xs ++ [b]) : ¬ radarPrompt <:+: xs ++ [b] := by
  rw [List.infix_concat_iff]
  rintro (hsuf | hin)
  · exact hprompt hsuf
  · exact h hin

/-- Any other byte. -/
theorem ReadSoFar.go {c c' : Cli} {xs ring : List UInt8} {b : UInt8} (h : ReadSoFar c xs c')
    (hring : c'.ring = b :: ring) (hprompt : ¬ radarPrompt <:+ xs ++ [b]) :
    ReadSoFar c (xs ++ [b]) { c' with ring := ring } := by
  refine ⟨?_, waits_go h.waits hprompt⟩
  rw [h.stream, hring]
  simp

/-- A round reads at most one byte. -/
theorem promptRound_reads (deadline : ℕ) (m : Moment) {c c' : Cli} {xs : List UInt8}
    (h : ReadSoFar c xs c') :
    match promptRound deadline m xs c' with
    | (.inl r, c'') => ReadTo c r c''
    | (.inr xs', c'') => ReadSoFar c xs' c'' := by
  have harr := h.arrive m.bytes
  unfold promptRound
  simp only
  by_cases hm : m.now < deadline
  · rw [if_pos hm]
    cases hring : (c'.arrive m.bytes).ring with
    | nil => exact harr
    | cons b ring =>
      simp only
      by_cases hprompt : radarPrompt <:+ xs ++ [b]
      · rw [if_pos hprompt]
        exact harr.complete hring
      · rw [if_neg hprompt]
        exact harr.go hring hprompt
  · rw [if_neg hm]
    exact harr.stop

theorem promptWait_reads (timeoutMs : ℕ) (c : Cli) :
    Scripted.Meets (ReadSoFar c []) (promptWait timeoutMs) (ReadTo c) fun _ => True := by
  apply Scripted.meets_bind (pause_meets (fun _ n h => h.arrive n) fun _ _ => trivial)
  intro now
  apply Scripted.meets_loop (ReadSoFar c) (fun _ _ _ => trivial)
  · intro m xs c' h r c'' hround
    have hreads := promptRound_reads (now + timeoutMs) m h
    rw [hround] at hreads
    exact hreads
  · intro m xs c' h xs' c'' hround
    have hreads := promptRound_reads (now + timeoutMs) m h
    rw [hround] at hreads
    exact hreads

/-! ## When the two agree -/

theorem nonzero_iff {xs : List UInt8} : (∀ x ∈ xs, decide (x ≠ 0) = true) ↔ 0 ∉ xs := by
  constructor
  · intro hall hzero
    simpa using hall 0 hzero
  · intro hzero x hx
    apply decide_eq_true
    rintro rfl
    exact hzero hx

/-- Some search of the buffer has found the token. -/
def DoneSeen (xs : List UInt8) : Prop :=
  Sliding.Seen (cliBufSize - 1) 16 (fun b => decide (b ≠ 0)) doneToken xs

/-- **What the loop of `cli_wait` knows** of the bytes read so far. -/
structure Reads (st : List UInt8 × Bool) (xs : List UInt8) : Prop where
  buf : st.1 = Sliding.held (cliBufSize - 1) 16 xs
  seen : st.2 = true ↔ DoneSeen xs
  /-- The prompt is still to come. -/
  waits : ¬ radarPrompt <:+: xs

theorem seen_searched (xs : List UInt8) : DoneSeen xs ↔
    ∃ n ≤ xs.length, ∃ pre post, searched xs n = pre ++ doneToken ++ post ∧ 0 ∉ pre := by
  have htok : ∀ x ∈ doneToken, decide (x ≠ 0) = true := nonzero_iff.2 (by decide +kernel)
  refine exists_congr fun n => and_congr_right fun _ => ?_
  rw [Sliding.finds_iff htok]
  refine exists_congr fun pre => exists_congr fun post => and_congr_right fun _ => ?_
  rw [nonzero_iff]

/-- A byte is searched for in what `Sliding` says. -/
theorem Reads.searched {st : List UInt8 × Bool} {xs : List UInt8} (h : Reads st xs) (b : UInt8) :
    st.1 ++ [b] = searched (xs ++ [b]) (xs.length + 1) := by
  unfold PresenceNode.searched
  rw [Sliding.held_window (by decide), h.buf]

theorem Reads.seen_byte {st : List UInt8 × Bool} {xs : List UInt8} (h : Reads st xs) (b : UInt8) :
    (st.2 || strstr (st.1 ++ [b]) doneToken) = true ↔ DoneSeen (xs ++ [b]) := by
  unfold DoneSeen
  rw [Sliding.seen_concat, Bool.or_eq_true, h.seen, h.searched b]
  unfold strstr
  rw [decide_eq_true_iff]
  rfl

/-- **The prompt is found** with its last byte, if there is no zero in the buffer. -/
theorem Reads.prompt_byte {st : List UInt8 × Bool} {xs : List UInt8} (h : Reads st xs)
    (b : UInt8) : strstr (st.1 ++ [b]) radarPrompt = true ↔
      radarPrompt <:+ xs ++ [b] ∧ 0 ∉ PresenceNode.searched (xs ++ [b]) (xs.length + 1) := by
  have hlen : radarPrompt.length ≤ 16 + 1 := by decide
  have hkeep : 16 < cliBufSize - 1 := by decide
  have hfound := Sliding.found_iff (p := fun b => decide (b ≠ 0)) (x := b) hkeep hlen h.waits
  rw [h.searched b]
  unfold strstr
  rw [decide_eq_true_iff]
  exact hfound.trans (and_congr_right fun _ => nonzero_iff)

/-- A byte that does not complete the prompt. -/
theorem Reads.go {st : List UInt8 × Bool} {xs : List UInt8} (h : Reads st xs) {b : UInt8}
    (hprompt : ¬ radarPrompt <:+ xs ++ [b]) :
    Reads (slide (st.1 ++ [b]), st.2 || strstr (st.1 ++ [b]) doneToken) (xs ++ [b]) := by
  refine ⟨?_, h.seen_byte b, waits_go h.waits hprompt⟩
  rw [Sliding.held_concat, ← h.buf]
  rfl

/-- The result is right when the token was not hidden. -/
theorem unhidden_iff {done : Bool} {xs : List UInt8}
    (hdone : done = true ↔ DoneSeen xs)
    (hprompt : radarPrompt <:+ xs → 0 ∉ searched xs xs.length) :
    done = decide (doneToken <:+: xs) ↔ Unhidden xs := by
  rw [Bool.eq_iff_iff, hdone, decide_eq_true_iff]
  constructor
  · intro h
    exact ⟨hprompt, fun hin => (seen_searched xs).1 (h.2 hin)⟩
  · intro h
    exact ⟨Sliding.Seen.inside, fun hin => (seen_searched xs).2 (h.done hin)⟩

/-- Where both return, the results decide. -/
theorem returned_iff {done : Bool} {r : Bool × List UInt8} (h : done = r.1 ↔ Unhidden r.2) (c : Cli)
    (script : List Moment) :
    Progress.ret done c script = (Progress.ret r c script).map Prod.fst ↔
      ∀ r' ∈ (Progress.ret r c script).value, Unhidden r'.2 := by
  simp only [Progress.map, Progress.value, Progress.ret.injEq, and_true, Option.mem_some_iff,
    forall_eq']
  exact h

/-- **The two agree** exactly as long as no zero byte hides a token. -/
theorem cliWait_go (deadline : ℕ) (script : List Moment) {st : List UInt8 × Bool}
    {xs : List UInt8} (h : Reads st xs) (c : Cli) :
    Scripted.loop.go (cliWaitRound deadline) script st c =
        (Scripted.loop.go (promptRound deadline) script xs c).map Prod.fst ↔
      ∀ r ∈ (Scripted.loop.go (promptRound deadline) script xs c).value, Unhidden r.2 := by
  induction script generalizing st xs c with
  | nil => simp [Scripted.loop.go, Progress.map, Progress.value]
  | cons m script ih =>
    unfold Scripted.loop.go cliWaitRound promptRound
    simp only
    by_cases hm : m.now < deadline
    · rw [if_pos hm, if_pos hm]
      cases hring : (c.arrive m.bytes).ring with
      | nil => exact ih h _
      | cons b ring =>
        simp only
        have hhit := h.prompt_byte b
        by_cases hprompt : radarPrompt <:+ xs ++ [b]
        · rw [if_pos hprompt]
          by_cases hzero : 0 ∈ searched (xs ++ [b]) (xs.length + 1)
          · -- the prompt is hidden: the loop goes on where it should have returned
            have hmiss : ¬ strstr (st.1 ++ [b]) radarPrompt = true := fun hs => (hhit.1 hs).2 hzero
            rw [if_neg hmiss]
            constructor
            · intro heq
              have hshort := Scripted.loop_shorter heq
              exact absurd hshort (Nat.lt_irrefl _)
            · intro hun
              have hno := (hun _ rfl).prompt hprompt
              rw [List.length_append, List.length_singleton] at hno
              exact absurd hzero hno
          · rw [if_pos (hhit.2 ⟨hprompt, hzero⟩)]
            have hnone : radarPrompt <:+ xs ++ [b] →
                0 ∉ searched (xs ++ [b]) (xs ++ [b]).length := by
              intro _
              rw [List.length_append, List.length_singleton]
              exact hzero
            exact returned_iff (unhidden_iff (h.seen_byte b) hnone) _ _
        · have hmiss : ¬ strstr (st.1 ++ [b]) radarPrompt = true := fun hs =>
            hprompt (hhit.1 hs).1
          rw [if_neg hmiss, if_neg hprompt]
          exact ih (h.go hprompt) _
    · rw [if_neg hm, if_neg hm]
      have hun := unhidden_iff h.seen fun hp => absurd hp.isInfix h.waits
      exact returned_iff hun _ _

theorem cliWait_promptWait (timeoutMs : ℕ) (c : Cli) (script : List Moment) :
    (cliWait timeoutMs).run c script = ((promptWait timeoutMs).run c script).map Prod.fst ↔
      ∀ r ∈ ((promptWait timeoutMs).run c script).value, Unhidden r.2 := by
  have hstart : Reads ([], false) [] := by
    refine ⟨rfl, ?_, by decide⟩
    constructor
    · intro h
      simp at h
    · intro h
      exact absurd h.inside (by decide)
  cases script with
  | nil => simp [cliWait, promptWait, pause, Scripted.run_bind, Scripted.next, Progress.map,
      Progress.value]
  | cons m script => exact cliWait_go (m.now + timeoutMs) script hstart (c.arrive m.bytes)

theorem recognises_iff (buf : Vector UInt8 cliBufSize) (head : Vector UInt8 cliRxHeadSize)
    (timeoutMs : ℕ) (c : Cli) (script : List Moment) :
    Recognises buf head timeoutMs c script ↔
      ∀ r ∈ ((promptWait timeoutMs).run c script).value, Unhidden r.2 := by
  have hsome : ∀ p : Progress Moment Cli (Bool × List UInt8),
      p.map (fun r => some r.1) = (p.map Prod.fst).map some := by
    intro p
    cases p with
    | ret r s script' => rfl
    | waiting s => rfl
  unfold Recognises
  rw [cliWaitBuf_run, hsome, Progress.map_inj (fun a b h => Option.some.inj h)]
  exact cliWait_promptWait timeoutMs c script

/-- Without a zero byte nothing is hidden. -/
theorem unhidden_text {xs : List UInt8} (hzero : 0 ∉ xs) : Unhidden xs := by
  have hp : ∀ x ∈ xs, decide (x ≠ 0) = true := nonzero_iff.2 hzero
  have hlen : doneToken.length ≤ 16 + 1 := by decide
  refine ⟨fun _ hmem => hzero ((Sliding.window_sub _ _).subset hmem), ?_⟩
  intro hin
  exact (seen_searched xs).1 ((Sliding.seen_iff hp hlen).2 hin)

/-- **On a link that carries no zero byte** the tokens are recognised. -/
theorem recognises_text (buf : Vector UInt8 cliBufSize) (head : Vector UInt8 cliRxHeadSize)
    (timeoutMs : ℕ) {c : Cli} (hzero : 0 ∉ c.ring ++ c.out) (script : List Moment) :
    Recognises buf head timeoutMs c script := by
  rw [recognises_iff]
  intro r hr
  have hbegin : ReadSoFar c [] c := ⟨rfl, by decide⟩
  obtain ⟨hret, -⟩ := promptWait_reads timeoutMs c c script hbegin
  cases hrun : (promptWait timeoutMs).run c script with
  | waiting s => rw [hrun] at hr; simp [Progress.value] at hr
  | ret r' c' script' =>
    rw [hrun] at hr
    simp only [Progress.value, Option.mem_some_iff] at hr
    subst hr
    have hread := hret r' c' script' hrun
    apply unhidden_text
    intro hmem
    apply hzero
    rw [hread.stream]
    exact List.mem_append_left _ hmem

/-- **When `cli_wait` recognises its tokens**: it never leaves its arrays, and ends as
`promptWait` does exactly when no zero byte among those read hides a token. -/
theorem cliWaitBuf_recognises (buf : Vector UInt8 cliBufSize) (head : Vector UInt8 cliRxHeadSize)
    (timeoutMs : ℕ) (c : Cli) (script : List Moment) :
    ((cliWaitBuf buf head timeoutMs).run c script).value ≠ some none ∧
      (Recognises buf head timeoutMs c script ↔
        ∀ r ∈ ((promptWait timeoutMs).run c script).value, Unhidden r.2) := by
  refine ⟨?_, recognises_iff buf head timeoutMs c script⟩
  intro hnone
  have hvalue := congrArg Progress.value (cliWaitBuf_run buf head timeoutMs c script)
  rw [Progress.value_map, Progress.value_map, hnone] at hvalue
  cases hv : ((cliWait timeoutMs).run c script).value with
  | none => rw [hv] at hvalue; simp at hvalue
  | some done => rw [hv] at hvalue; simp at hvalue

/-- A `0` in front of an answer hides both tokens of it. -/
def zeroReply : List UInt8 := 0 :: doneToken ++ radarPrompt

/-- It is waiting in the ring, and nothing comes after it. -/
def zeroLink : Cli := ⟨[], 0, [], [], zeroReply, []⟩

/-- The reply is read at once; the next byte is waited for until the deadline. -/
def zeroScript : List Moment := List.replicate 16 ⟨0, 0⟩ ++ [⟨0, 500⟩]

/-- **A zero byte hides the tokens**: `cli_wait` runs into the deadline, and reports a line that
was accepted as refused. -/
theorem cliWaitBuf_zero :
    ¬ Recognises (.replicate cliBufSize 0) (.replicate cliRxHeadSize 0) 500 zeroLink zeroScript ∧
      ((cliWaitBuf (.replicate cliBufSize 0) (.replicate cliRxHeadSize 0) 500).run zeroLink
        zeroScript).value.map (Option.map Prod.fst) = some (some false) ∧
      ((promptWait 500).run zeroLink zeroScript).value = some (true, zeroReply) := by
  have hrun := cliWaitBuf_run (.replicate cliBufSize 0) (.replicate cliRxHeadSize 0) 500 zeroLink
    zeroScript
  have hcode : ((cliWaitBuf (.replicate cliBufSize 0) (.replicate cliRxHeadSize 0) 500).run zeroLink
      zeroScript).value.map (Option.map Prod.fst) = some (some false) := by
    rw [← Progress.value_map, hrun, Progress.value_map]
    decide +kernel
  have hread : ((promptWait 500).run zeroLink zeroScript).value = some (true, zeroReply) := by
    decide +kernel
  refine ⟨?_, hcode, hread⟩
  intro hrec
  have hvalue := congrArg Progress.value hrec
  rw [Progress.value_map, Progress.value_map, hcode, hread] at hvalue
  simp at hvalue

end PresenceNode
