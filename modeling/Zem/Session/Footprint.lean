import Zem.Session.HandlerClose
import Zem.Session.FlowControl

/-!
# What the steps of a session leave alone

* `CallsOnly` — what a coroutine does between two waits; `PathOnly` — what the calls of the write
  path do.  Either leaves the tasks of the other's kind as they are.
* `resumeReadLoop_goesTo`, `resumeHeartbeat_goesTo` — where a coroutine waits next.
* `LiveInv`, `liveInv_step`, `liveInv_run` — every task in the queue can run: a completion has its
  write, a resumption its coroutine; a coroutine ends in a closed session only.
* `task_enabled` — so a strand with a task in its queue is not blocked.
-/

set_option autoImplicit false

namespace Zem

/-- The resumptions in the queue. -/
def HbPos.tokens : HbPos → Nat
  | .scheduled _ => 1
  | .waiting _ | .finished => 0

/-- A read that was started on a closed socket. -/
def ReadPos.Dead {Q A : Type} : ReadPos Q A → Prop
  | .headerRead live | .bodyRead _ _ _ live => live = false
  | .scheduled _ | .resumeWait | .handlerWait _ _ | .finished => False

namespace Strand

variable {Q A : Type}

/-! ## Counting tasks -/

theorem countP_take {s : Strand Q A} {i : Nat} {task : Task} (h : s.queue[i]? = some task)
    (p : Task → Bool) :
    s.queue.countP p = (s.take i).queue.countP p + (p task).toNat := by
  obtain ⟨hi, rfl⟩ := List.getElem?_eq_some_iff.mp h
  rw [← (List.getElem_cons_eraseIdx_perm hi).countP_eq, List.countP_cons]
  cases p s.queue[i] <;> rfl

theorem countP_post (s : Strand Q A) (task : Task) (p : Task → Bool) :
    (s.post task).queue.countP p = s.queue.countP p + (p task).toNat := by
  rw [post, List.countP_append, List.countP_singleton]
  cases p task <;> rfl

/-! ## The coroutines -/

/-- From `s` to `t` by calls of a coroutine: frames and cleanups are posted, and no other tasks. -/
structure CallsOnly (s t : Strand Q A) : Prop extends Calls s t where
  input : t.input = s.input
  hbPos : t.hbPos = s.hbPos
  outstanding : t.writer.outstanding = s.writer.outstanding
  closed : s.isClosed = true → t.isClosed = true
  counts : ∀ p : Task → Bool, p .cleanup = false → (∀ a, p (.sendFrame a) = false) →
    t.queue.countP p = s.queue.countP p

theorem CallsOnly.refl (s : Strand Q A) : CallsOnly s s :=
  ⟨.refl s, rfl, rfl, rfl, id, fun _ _ _ => rfl⟩

theorem CallsOnly.trans {s t u : Strand Q A} (h : CallsOnly s t) (h' : CallsOnly t u) :
    CallsOnly s u :=
  ⟨h.toCalls.trans h'.toCalls, h'.input.trans h.input, h'.hbPos.trans h.hbPos,
    h'.outstanding.trans h.outstanding, fun hc => h'.closed (h.closed hc),
    fun p hc hs => (h'.counts p hc hs).trans (h.counts p hc hs)⟩

theorem callsOnly_post (s : Strand Q A) (a : SendArgs) : CallsOnly s (s.post (.sendFrame a)) := by
  refine ⟨calls_post s a, rfl, rfl, rfl, id, fun p _ hs => ?_⟩
  rw [countP_post, hs a]
  rfl

theorem callsOnly_shutdown (s : Strand Q A) : CallsOnly s s.shutdown := by
  have hcalls := calls_shutdown s
  have hinput := (posts_shutdown s []).input
  cases h : s.isClosed with
  | true =>
    rw [shutdown_closed h]
    exact .refl s
  | false =>
    rw [shutdown_open h] at hcalls hinput ⊢
    refine ⟨hcalls, hinput, rfl, rfl, fun _ => rfl, fun p hc _ => ?_⟩
    rw [countP_post, hc]
    rfl

theorem callsOnly_onHeader (s : Strand Q A) (h : TCPHeaderConv) :
    CallsOnly s (s.setSession (s.writer.session.onHeader h).1) := by
  refine ⟨calls_onHeader s h, rfl, rfl, rfl, fun hc => ?_, fun _ _ _ => rfl⟩
  rw [TCPSession.onHeader_members]
  exact hc

theorem callsOnly_foldl {C : Type} {f : Strand Q A → C → Strand Q A}
    (hf : ∀ s c, CallsOnly s (f s c)) (s : Strand Q A) (calls : List C) :
    CallsOnly s (calls.foldl f s) :=
  List.foldlRecOn calls f (.refl s) fun t ht c _ => ht.trans (hf t c)

theorem callsOnly_performConn (s : Strand Q A) (c : ConnCall) : CallsOnly s (s.performConn c) := by
  cases c with
  | send a => exact callsOnly_post s a
  | close => exact callsOnly_shutdown s

/-- Where `ReadLoop` goes with a resumption. -/
inductive NextPos (handlers : Handlers Q A) (s : Strand Q A) :
    Resumption Q A → ReadPos Q A → Prop where
  | resumeWait {r : Resumption Q A} (ends : EndsIteration handlers s.writer.session r)
      (flag : s.backpressure = true) : NextPos handlers s r .resumeWait
  | headerRead {r : Resumption Q A}
      (ends : r = .woken ∨ EndsIteration handlers s.writer.session r) :
      NextPos handlers s r (.headerRead (!s.cleanedUp))
  | bodyRead {bytes : Bytes} (t : TCPServiceType) (v : UInt16) (n : Nat) :
      NextPos handlers s (.header (some bytes)) (.bodyRead t v n (!s.cleanedUp))
  | handlerWait {r : Resumption Q A} {c : Coroutine Q A ConnCall Unit} {q : Q}
      {k : A → Coroutine Q A ConnCall Unit} (handler : resumedHandler handlers r = some c)
      (stop : c.segment.2 = .suspended q k) : NextPos handlers s r (.handlerWait q k)
  | finished {r : Resumption Q A} : NextPos handlers s r .finished

/-- The coroutine makes its calls and goes on; it ends in a closed session. -/
def GoesTo (handlers : Handlers Q A) (s t : Strand Q A) (r : Resumption Q A) : Prop :=
  ∃ u p, CallsOnly s u ∧ t = u.goto p ∧ NextPos handlers s r p ∧ (p = .finished → u.isClosed = true)

theorem goesTo_top {handlers : Handlers Q A} {s u : Strand Q A} {r : Resumption Q A}
    (h : CallsOnly s u) (hr : EndsIteration handlers s.writer.session r) :
    GoesTo handlers s u.readLoopTop r := by
  refine ⟨u, _, h, rfl, ?_⟩
  rw [h.backpressure, h.cleanedUp]
  split
  · rename_i hb
    exact ⟨.resumeWait hr hb, fun hp => by cases hp⟩
  · exact ⟨.headerRead (Or.inr hr), fun hp => by cases hp⟩

theorem goesTo_stop {handlers : Handlers Q A} {s u : Strand Q A} {r : Resumption Q A}
    (h : CallsOnly s u) : GoesTo handlers s u.stop r :=
  ⟨_, _, h.trans (callsOnly_shutdown u), rfl, .finished, fun _ => isClosed_shutdown u⟩

theorem goesTo_runHandler {handlers : Handlers Q A} (s : Strand Q A) {r : Resumption Q A}
    {c : Coroutine Q A ConnCall Unit} (hc : resumedHandler handlers r = some c)
    (hr : c.segment.2 = .returned () → EndsIteration handlers s.writer.session r) :
    GoesTo handlers s (s.runHandler c) r := by
  have hcalls := callsOnly_foldl callsOnly_performConn s c.segment.1
  unfold runHandler
  simp only
  split
  · rename_i hend
    exact goesTo_top hcalls (hr hend)
  · exact goesTo_stop hcalls
  · rename_i hend
    exact ⟨_, _, hcalls, rfl, .handlerWait hc hend, fun hp => by cases hp⟩

/-- **`ReadLoop` between two waits.** -/
theorem resumeReadLoop_goesTo (handlers : Handlers Q A) (s : Strand Q A) (r : Resumption Q A) :
    GoesTo handlers s (s.resumeReadLoop handlers r) r := by
  cases r with
  | start => exact goesTo_top (.refl s) trivial
  | woken => exact ⟨s, _, .refl s, rfl, .headerRead (Or.inl rfl), fun hp => by cases hp⟩
  | header bytes =>
    cases bytes with
    | none => exact goesTo_stop (.refl s)
    | some bytes =>
      have hcalls := callsOnly_onHeader s (TCPHeaderConv.ofBytes bytes)
      simp only [resumeReadLoop]
      split
      · exact goesTo_stop hcalls
      · rename_i hact
        exact goesTo_top (hcalls.trans (callsOnly_post _ _)) (Or.inl hact)
      · rename_i hact
        exact goesTo_top hcalls (Or.inr hact)
      · exact ⟨_, _, hcalls, rfl, .bodyRead _ _ _, fun hp => by cases hp⟩
  | body t v bytes =>
    cases bytes with
    | none => exact goesTo_stop (.refl s)
    | some bytes => exact goesTo_runHandler s rfl id
  | answered rest => exact goesTo_runHandler s rfl id

/-- **`Heartbeat` between two waits.**  It ends in a closed session. -/
theorem resumeHeartbeat_goesTo (s : Strand Q A) (idle : Nat) (r : HbResumption) :
    ∃ u p, CallsOnly s u ∧ s.resumeHeartbeat idle r = { u with hbPos := p } ∧ p.tokens = 0 ∧
      (p = .finished → u.isClosed = true) := by
  have htop : ∃ u q, CallsOnly s u ∧ s.resumeHeartbeat idle .start = { u with hbPos := q } ∧
      q.tokens = 0 ∧ (q = .finished → u.isClosed = true) := by
    refine ⟨s, _, .refl s, rfl, ?_, ?_⟩
    · cases s.isClosed <;> rfl
    · cases hc : s.isClosed with
      | true => exact fun _ => rfl
      | false => exact fun hp => by cases hp
  have hstop : ∃ u q, CallsOnly s u ∧ { s.shutdown with hbPos := HbPos.finished } =
      { u with hbPos := q } ∧ q.tokens = 0 ∧ (q = .finished → u.isClosed = true) :=
    ⟨_, _, callsOnly_shutdown s, rfl, rfl, fun _ => isClosed_shutdown s⟩
  cases r with
  | start => exact htop
  | woken wait aborted =>
    simp only [resumeHeartbeat, heartbeatResume]
    cases aborted with
    | true => exact htop
    | false =>
      simp only [Bool.false_eq_true, if_false]
      cases wait with
      | interval =>
        simp only
        split
        · exact hstop
        split
        · exact ⟨_, _, callsOnly_post s _, rfl, rfl, fun hp => by cases hp⟩
        · exact htop
      | grace =>
        simp only
        split
        · exact hstop
        · exact htop

/-! ## The write path -/

/-- What the calls of the write path leave: they post cleanups and resumptions of `ReadLoop`. -/
structure PathOnly (s t : Strand Q A) : Prop where
  counts : ∀ p : Task → Bool, p .cleanup = false → p .readLoop = false →
    t.queue.countP p = s.queue.countP p
  hbPos : t.hbPos = s.hbPos
  input : t.input = s.input
  cleanedUp : t.cleanedUp = s.cleanedUp
  owed : t.owed = s.owed
  readPos : t.readPos = s.readPos ∨ s.readPos = .resumeWait ∧ t.readPos = .scheduled .woken

theorem PathOnly.trans {s t u : Strand Q A} (h : PathOnly s t) (h' : PathOnly t u) :
    PathOnly s u := by
  refine ⟨fun p hc hr => (h'.counts p hc hr).trans (h.counts p hc hr), h'.hbPos.trans h.hbPos,
    h'.input.trans h.input, h'.cleanedUp.trans h.cleanedUp, h'.owed.trans h.owed, ?_⟩
  rcases h'.readPos with heq | ⟨hwait, hwoken⟩
  · rw [heq]
    exact h.readPos
  · rcases h.readPos with heq | ⟨_, hwoken'⟩
    · exact Or.inr ⟨heq ▸ hwait, hwoken⟩
    · rw [hwoken'] at hwait
      cases hwait

theorem pathOnly_perform (s : Strand Q A) (c : AsioCall) : PathOnly s (s.perform c) := by
  cases c with
  | asyncWrite b => exact ⟨fun _ _ _ => rfl, rfl, rfl, rfl, rfl, Or.inl rfl⟩
  | cancelResumeRead =>
    by_cases hwait : s.readPos = .resumeWait
    · rw [perform, cancelResumeRead_waiting hwait]
      refine ⟨fun p _ hr => ?_, rfl, rfl, rfl, rfl, Or.inr ⟨hwait, rfl⟩⟩
      rw [countP_post, hr]
      rfl
    · rw [perform, cancelResumeRead_elsewhere hwait]
      exact ⟨fun _ _ _ => rfl, rfl, rfl, rfl, rfl, Or.inl rfl⟩
  | postCleanup =>
    refine ⟨fun p hc _ => ?_, rfl, rfl, rfl, rfl, Or.inl rfl⟩
    rw [perform, countP_post, hc]
    rfl

theorem callWriter_pathOnly {s t : Strand Q A} {act : WriterAct} (h : s.callWriter act = some t) :
    PathOnly s t := by
  obtain ⟨w, calls, _, rfl⟩ := callWriter_some h
  have hrefl : PathOnly s { s with writer := w } :=
    ⟨fun _ _ _ => rfl, rfl, rfl, rfl, rfl, Or.inl rfl⟩
  exact List.foldlRecOn calls perform hrefl fun u hu c _ => hu.trans (pathOnly_perform u c)

/-- A read that is over has posted the resumption of `ReadLoop`. -/
structure ReadPosted (s t : Strand Q A) : Prop where
  queue : t.queue = s.queue ++ [.readLoop]
  writer : t.writer = s.writer
  hbPos : t.hbPos = s.hbPos
  cleanedUp : t.cleanedUp = s.cleanedUp
  readPos : ∃ r, t.readPos = .scheduled r

theorem readDone_posted {s t : Strand Q A} {n : Nat} {live ok : Bool}
    {r : Option Bytes → Resumption Q A} (h : s.readDone n live ok r = some t) : ReadPosted s t := by
  rcases readDone_cases h with ⟨got, rest, _, _, rfl⟩ | rfl
  · exact ⟨rfl, rfl, rfl, rfl, _, rfl⟩
  · exact ⟨rfl, rfl, rfl, rfl, _, rfl⟩

/-! ## Completions -/

/-- A completion in the queue has its write, and is the only one. -/
structure CompletionsOk (s : Strand Q A) : Prop where
  started : ∀ b ec, Task.writeDone b ec ∈ s.queue → b ∈ s.writer.outstanding
  single : s.queue.countP isWriteDone ≤ 1

/-- Asio posts one completion at a time. -/
theorem countP_of_writeDone {handlers : Handlers Q A} {repo : Nat → Q → A} {s t : Strand Q A}
    {b : Batch} {ec : Bool} (h : s.step handlers repo (.writeDone b ec) = some t) :
    s.queue.countP isWriteDone = 0 := by
  simp only [step] at h
  split at h
  · rename_i hb
    rw [List.countP_eq_zero]
    simpa using hb.2
  · cases h

/-- Tasks that stand for no completion. -/
structure NoCompletion (p : Task → Bool) : Prop where
  cleanup : p .cleanup = false
  readLoop : p .readLoop = false
  sendFrame : ∀ a, p (.sendFrame a) = false
  heartbeat : p .heartbeat = false

theorem CompletionsOk.keep {s t : Strand Q A} (h : CompletionsOk s)
    (hout : ∀ b ∈ s.writer.outstanding, b ∈ t.writer.outstanding)
    (hcounts : ∀ p, NoCompletion p → t.queue.countP p = s.queue.countP p) : CompletionsOk t := by
  refine ⟨fun b ec hmem => hout b (h.started b ec ?_), ?_⟩
  · have hcount := hcounts (fun task => decide (task = .writeDone b ec))
      ⟨by simp, by simp, by simp, by simp⟩
    have hpos := (List.countP_pos_iff (p := fun task => decide (task = .writeDone b ec))).mpr
      ⟨_, hmem, decide_eq_true rfl⟩
    rw [hcount, List.countP_pos_iff] at hpos
    obtain ⟨task, hin, htask⟩ := hpos
    exact of_decide_eq_true htask ▸ hin
  · rw [hcounts isWriteDone ⟨rfl, rfl, fun _ => rfl, rfl⟩]
    exact h.single

/-- Another task is taken off the queue. -/
theorem noCompletion_take {s : Strand Q A} {i : Nat} {task : Task} (h : s.queue[i]? = some task)
    {p : Task → Bool} (hp : p task = false) :
    (s.take i).queue.countP p = s.queue.countP p := by
  rw [countP_take h p, hp]
  rfl

theorem outstanding_sendFrame {w w' : Writer} {a : SendArgs} {raced : Bool}
    (hs : w.session.pendingBytes ≤ sizeMax) (h : w.step (.sendFrame a raced) = some w') :
    ∀ b ∈ w.outstanding, b ∈ w'.outstanding := by
  intro b hb
  rcases Writer.sendFrame_step hs h with
    ⟨_, rfl⟩ | ⟨_, _, _, _, _, rfl⟩ | ⟨_, _, _, ⟨_, rfl⟩ | ⟨_, _, rfl⟩⟩
  · exact hb
  · exact hb
  · exact hb
  · exact List.mem_append_left _ hb

theorem cleanup_counts (s : Strand Q A) {p : Task → Bool} (hp : NoCompletion p) :
    s.cleanup.queue.countP p = s.queue.countP p := by
  have htimer : s.cancelHbTimer.queue.countP p = s.queue.countP p := by
    unfold cancelHbTimer
    split
    · rw [countP_post, hp.heartbeat]
      rfl
    · rfl
  rw [← htimer]
  exact (pathOnly_perform s.cancelHbTimer .cancelResumeRead).counts p hp.cleanup hp.readLoop

theorem CompletionsOk.read {s t : Strand Q A} (h : CompletionsOk s) (ht : ReadPosted s t) :
    CompletionsOk t := by
  refine h.keep (fun b hb => ht.writer ▸ hb) fun p hp => ?_
  rw [ht.queue, List.countP_append, List.countP_singleton, hp.readLoop]
  rfl

theorem completionsOk_step {handlers : Handlers Q A} {repo : Nat → Q → A} {s t : Strand Q A}
    {act : StrandAct} (hinv : SessionInv s) (hok : CompletionsOk s)
    (h : s.step handlers repo act = some t) : CompletionsOk t := by
  cases fires_of_step h with
  | sendFrame htask hrun =>
    simp only [runTask] at hrun
    obtain ⟨u, hu, rfl⟩ := Option.map_eq_some_iff.mp hrun
    have hout := outstanding_sendFrame hinv.writer.accounting.bounded
      (callWriter_writer (s := s.take _) hu)
    exact hok.keep hout fun p hp => ((callWriter_pathOnly hu).counts p hp.cleanup hp.readLoop).trans
      (noCompletion_take htask (hp.sendFrame _))
  | @written i _ _ b ec _ htask hrun =>
    -- it was the only one
    have hnone : t.queue.countP isWriteDone = 0 := by
      have htake := countP_take htask isWriteDone
      have hsingle := hok.single
      simp only [isWriteDone, Bool.toNat_true] at htake
      rw [(callWriter_pathOnly hrun).counts isWriteDone rfl rfl]
      omega
    refine ⟨fun b' ec' hmem => ?_, by omega⟩
    have := List.countP_pos_iff.mpr ⟨_, hmem, (rfl : isWriteDone (.writeDone b' ec') = true)⟩
    omega
  | cleanup htask =>
    refine hok.keep (fun b hb => ?_) fun p hp => ?_
    · rw [(cleanup_spec _).1]
      exact hb
    · rw [cleanup_counts _ hp, noCompletion_take htask hp.cleanup]
  | @readLoop i _ _ r htask _ =>
    obtain ⟨u, p, hcalls, hu, _⟩ := resumeReadLoop_goesTo handlers (s.take i) r
    rw [hu]
    refine hok.keep (fun b hb => ?_) fun p hp => ?_
    · show b ∈ u.writer.outstanding
      rw [hcalls.outstanding]
      exact hb
    · exact (hcalls.counts p hp.cleanup hp.sendFrame).trans (noCompletion_take htask hp.readLoop)
  | @heartbeat i _ idle r htask _ =>
    obtain ⟨u, p, hcalls, hu, _⟩ := resumeHeartbeat_goesTo (s.take i) idle r
    rw [hu]
    refine hok.keep (fun b hb => ?_) fun p hp => ?_
    · show b ∈ u.writer.outstanding
      rw [hcalls.outstanding]
      exact hb
    · exact (hcalls.counts p hp.cleanup hp.sendFrame).trans (noCompletion_take htask hp.heartbeat)
  | headerDone _ hread => exact hok.read (readDone_posted hread)
  | bodyDone _ hread => exact hok.read (readDone_posted hread)
  | @writeDone b ec hb =>
    have hnone := countP_of_writeDone h
    refine ⟨fun b' ec' hmem => ?_, ?_⟩
    · rcases List.mem_append.mp hmem with hin | hin
      · have := List.countP_pos_iff.mpr ⟨_, hin, (rfl : isWriteDone (.writeDone b' ec') = true)⟩
        omega
      · cases List.mem_singleton.mp hin
        exact hb
    · simp [countP_post, hnone, isWriteDone]
  | hbExpires _ =>
    refine hok.keep (fun _ hb => hb) fun p hp => ?_
    rw [countP_post, hp.heartbeat]
    rfl
  | answer _ =>
    refine hok.keep (fun _ hb => hb) fun p hp => ?_
    rw [countP_post, hp.readLoop]
    rfl
  | send =>
    refine hok.keep (fun _ hb => hb) fun p hp => ?_
    rw [countP_post, hp.sendFrame]
    rfl
  | closeFlag _ => exact hok.keep (fun _ hb => hb) fun _ _ => rfl
  | closePost _ =>
    refine hok.keep (fun _ hb => hb) fun p hp => ?_
    rw [countP_post, hp.cleanup]
    rfl

/-! ## Resumptions -/

/-- The resumptions of `Heartbeat` are in the queue, and it ends in a closed session. -/
structure BeatsOk (s : Strand Q A) : Prop where
  tokens : s.queue.countP isHeartbeat = s.hbPos.tokens
  beating : s.isClosed = false → s.hbPos ≠ .finished

theorem BeatsOk.keep {s t : Strand Q A} (h : BeatsOk s)
    (hclosed : s.isClosed = true → t.isClosed = true)
    (hcount : t.queue.countP isHeartbeat = s.queue.countP isHeartbeat) (hpos : t.hbPos = s.hbPos) :
    BeatsOk t := by
  refine ⟨by rw [hcount, hpos]; exact h.tokens, fun ho => ?_⟩
  rw [hpos]
  refine h.beating ?_
  cases hs : s.isClosed with
  | false => rfl
  | true =>
    rw [hclosed hs] at ho
    cases ho

theorem cleanup_beats (s : Strand Q A) :
    s.cleanup.queue.countP isHeartbeat + s.hbPos.tokens =
        s.queue.countP isHeartbeat + s.cleanup.hbPos.tokens ∧
      (s.cleanup.hbPos = .finished → s.hbPos = .finished) := by
  have hpath := pathOnly_perform s.cancelHbTimer .cancelResumeRead
  have hcount : s.cleanup.queue.countP isHeartbeat = s.cancelHbTimer.queue.countP isHeartbeat :=
    hpath.counts isHeartbeat rfl rfl
  have hpos : s.cleanup.hbPos = s.cancelHbTimer.hbPos := hpath.hbPos
  rw [hcount, hpos]
  unfold cancelHbTimer
  split
  · rename_i w hw
    rw [countP_post, hw]
    exact ⟨rfl, fun hp => by cases hp⟩
  · exact ⟨rfl, id⟩

theorem beatsOk_step {handlers : Handlers Q A} {repo : Nat → Q → A} {s t : Strand Q A}
    {act : StrandAct} (hinv : SessionInv s) (hok : BeatsOk s)
    (h : s.step handlers repo act = some t) : BeatsOk t := by
  have hclosed := closed_of_reaches hinv.writer (writer_step handlers repo s act t hinv h)
  have hread : ∀ {n live ok r}, s.readDone n live ok r = some t → BeatsOk t := by
    intro n live ok r hread
    obtain ⟨hq, _, hpos, _⟩ := readDone_posted hread
    refine hok.keep hclosed ?_ hpos
    rw [hq, List.countP_append]
    rfl
  cases fires_of_step h with
  | sendFrame htask hrun =>
    simp only [runTask] at hrun
    obtain ⟨u, hu, rfl⟩ := Option.map_eq_some_iff.mp hrun
    have hpath := callWriter_pathOnly hu
    exact hok.keep hclosed ((hpath.counts isHeartbeat rfl rfl).trans
      (noCompletion_take htask rfl)) hpath.hbPos
  | written htask hrun =>
    have hpath := callWriter_pathOnly hrun
    exact hok.keep hclosed ((hpath.counts isHeartbeat rfl rfl).trans
      (noCompletion_take htask rfl)) hpath.hbPos
  | @cleanup i _ _ htask =>
    obtain ⟨hcount, hpos⟩ := cleanup_beats (s.take i)
    rw [noCompletion_take htask (rfl : isHeartbeat .cleanup = false), hok.tokens] at hcount
    refine ⟨?_, fun ho hp => hok.beating ?_ (hpos hp)⟩
    · simp only [take] at hcount ⊢
      omega
    · rw [isClosed, (cleanup_spec _).1] at ho
      exact ho
  | @readLoop i _ _ r htask _ =>
    obtain ⟨u, p, hcalls, hu, _⟩ := resumeReadLoop_goesTo handlers (s.take i) r
    rw [hu] at hclosed ⊢
    exact hok.keep hclosed ((hcalls.counts isHeartbeat rfl fun _ => rfl).trans
      (noCompletion_take htask rfl)) hcalls.hbPos
  | @heartbeat i _ idle r htask hpos =>
    obtain ⟨u, p, hcalls, hu, htokens, hend⟩ := resumeHeartbeat_goesTo (s.take i) idle r
    have htake := countP_take htask isHeartbeat
    rw [hok.tokens, hpos] at htake
    simp only [HbPos.tokens, isHeartbeat, Bool.toNat_true] at htake
    rw [hu]
    refine ⟨?_, fun ho hp => ?_⟩
    · show u.queue.countP isHeartbeat = p.tokens
      rw [hcalls.counts isHeartbeat rfl fun _ => rfl, htokens]
      omega
    · have hc : u.isClosed = true := hend hp
      have ho : u.isClosed = false := ho
      rw [hc] at ho
      cases ho
  | headerDone _ hr => exact hread hr
  | bodyDone _ hr => exact hread hr
  | writeDone _ => exact hok.keep hclosed (countP_post s _ _) rfl
  | hbExpires hpos =>
    have htokens := hok.tokens
    rw [hpos] at htokens
    refine ⟨?_, fun _ hp => by cases hp⟩
    rw [countP_post]
    show s.queue.countP isHeartbeat + 1 = 1
    rw [htokens]
    rfl
  | answer _ => exact hok.keep hclosed (countP_post s _ _) rfl
  | send => exact hok.keep hclosed (countP_post s _ _) rfl
  | closeFlag _ => exact hok.keep hclosed rfl rfl
  | closePost _ => exact hok.keep hclosed (countP_post s _ _) rfl

/-- `ReadLoop` ends in a closed session, waits on `m_resume_read` under backpressure, and starts a
    read on a closed socket after the cleanup only. -/
structure ReaderOk (s : Strand Q A) : Prop where
  reading : s.isClosed = false → s.readPos ≠ .finished
  stalled : s.readPos = .resumeWait → s.backpressure = true
  dead : s.readPos.Dead → s.cleanedUp = true

theorem stalled_step {handlers : Handlers Q A} {repo : Nat → Q → A} {s t : Strand Q A}
    {act : StrandAct} (hinv : SessionInv s) (hok : ReaderOk s)
    (h : s.step handlers repo act = some t) (hwait : t.readPos = .resumeWait) :
    t.backpressure = true := by
  rcases step_cases hinv h with ⟨_, hkeeps⟩ | ⟨i, _, _, _, _, rfl⟩ |
    ⟨i, _, _, r, _, _, _, _, u, p, hcalls, rfl, _, hp⟩
  · obtain ⟨hbefore, hflag⟩ := hkeeps.waiting hwait
    exact hflag (hok.stalled hbefore)
  · exact absurd hwait (cleanup_spec _).2.2.2
  · show u.backpressure = true
    rw [hcalls.backpressure]
    exact (hp.mp hwait).2

/-- `ReadLoop` is where it was, or is woken. -/
theorem ReaderOk.keep {s t : Strand Q A} (h : ReaderOk s)
    (ho : s.isClosed = true → t.isClosed = true)
    (hu : s.cleanedUp = true → t.cleanedUp = true)
    (hp : t.readPos = s.readPos ∨ s.readPos = .resumeWait ∧ t.readPos = .scheduled .woken) :
    (t.isClosed = false → t.readPos ≠ .finished) ∧ (t.readPos.Dead → t.cleanedUp = true) := by
  rcases hp with hp | ⟨_, hp⟩
  · rw [hp]
    refine ⟨fun hopen => h.reading ?_, fun hd => hu (h.dead hd)⟩
    cases hs : s.isClosed with
    | false => rfl
    | true =>
      rw [ho hs] at hopen
      cases hopen
  · rw [hp]
    exact ⟨fun _ hf => (nomatch hf), False.elim⟩

/-- A read that is started on a closed socket is started after the cleanup. -/
theorem NextPos.dead {handlers : Handlers Q A} {s : Strand Q A} {r : Resumption Q A}
    {p : ReadPos Q A} (h : NextPos handlers s r p) (hd : p.Dead) : s.cleanedUp = true := by
  cases h with
  | resumeWait => exact hd.elim
  | headerRead =>
    have hd : (!s.cleanedUp) = false := hd
    simpa using hd
  | bodyRead =>
    have hd : (!s.cleanedUp) = false := hd
    simpa using hd
  | handlerWait => exact hd.elim
  | finished => exact hd.elim

theorem readerOk_step {handlers : Handlers Q A} {repo : Nat → Q → A} {s t : Strand Q A}
    {act : StrandAct} (hinv : SessionInv s) (hok : ReaderOk s)
    (h : s.step handlers repo act = some t) : ReaderOk t := by
  have hclosed := closed_of_reaches hinv.writer (writer_step handlers repo s act t hinv h)
  have hstalled := stalled_step hinv hok h
  have hscheduled : (∃ r, t.readPos = .scheduled r) →
      (t.isClosed = false → t.readPos ≠ .finished) ∧ (t.readPos.Dead → t.cleanedUp = true) := by
    rintro ⟨r, hp⟩
    rw [hp]
    exact ⟨fun _ hf => (nomatch hf), False.elim⟩
  suffices hkeep : (t.isClosed = false → t.readPos ≠ .finished) ∧
      (t.readPos.Dead → t.cleanedUp = true) from ⟨hkeep.1, hstalled, hkeep.2⟩
  cases fires_of_step h with
  | sendFrame htask hrun =>
    simp only [runTask] at hrun
    obtain ⟨u, hu, rfl⟩ := Option.map_eq_some_iff.mp hrun
    have hpath := callWriter_pathOnly hu
    exact hok.keep hclosed (fun hc => hpath.cleanedUp.trans hc) hpath.readPos
  | written htask hrun =>
    have hpath := callWriter_pathOnly hrun
    exact hok.keep hclosed (fun hc => hpath.cleanedUp.trans hc) hpath.readPos
  | @cleanup i _ _ htask =>
    have hpath := (pathOnly_perform (s.take i).cancelHbTimer .cancelResumeRead).readPos
    rw [(cancelHbTimer_spec (s.take i)).2.2.2.1] at hpath
    exact hok.keep hclosed (fun _ => rfl) hpath
  | @readLoop i _ _ r htask _ =>
    obtain ⟨u, p, hcalls, hu, hp, hend⟩ := resumeReadLoop_goesTo handlers (s.take i) r
    rw [hu]
    refine ⟨fun ho hf => ?_, fun hd => ?_⟩
    · have hc : u.isClosed = true := hend hf
      have ho : u.isClosed = false := ho
      rw [hc] at ho
      cases ho
    · show u.cleanedUp = true
      rw [hcalls.cleanedUp]
      exact hp.dead hd
  | @heartbeat i _ idle r htask _ =>
    obtain ⟨u, p, hcalls, hu, _⟩ := resumeHeartbeat_goesTo (s.take i) idle r
    rw [hu] at hclosed ⊢
    exact hok.keep hclosed (fun hc => hcalls.cleanedUp.trans hc) (Or.inl hcalls.readPos)
  | headerDone _ hread => exact hscheduled (readDone_posted hread).readPos
  | bodyDone _ hread => exact hscheduled (readDone_posted hread).readPos
  | writeDone _ => exact hok.keep id id (Or.inl rfl)
  | hbExpires _ => exact hok.keep id id (Or.inl rfl)
  | answer _ => exact hscheduled ⟨_, rfl⟩
  | send => exact hok.keep id id (Or.inl rfl)
  | closeFlag _ => exact hok.keep hclosed id (Or.inl rfl)
  | closePost _ => exact hok.keep id id (Or.inl rfl)

/-! ## Every task can run -/

structure LiveInv (s : Strand Q A) : Prop where
  session : SessionInv s
  completions : CompletionsOk s
  beats : BeatsOk s
  reader : ReaderOk s

theorem liveInv_init (input : Bytes) : LiveInv (init input : Strand Q A) :=
  { session := sessionInv_init input
    completions := ⟨fun b ec h => by simp [init] at h, Nat.zero_le 1⟩
    beats := ⟨rfl, fun _ h => by cases h⟩
    reader := ⟨fun _ h => (nomatch h), fun h => (nomatch h), False.elim⟩ }

theorem liveInv_step (handlers : Handlers Q A) (repo : Nat → Q → A) (s : Strand Q A)
    (act : StrandAct) (t : Strand Q A) (hinv : LiveInv s)
    (h : s.step handlers repo act = some t) : LiveInv t :=
  { session := sessionInv_step handlers repo s act t hinv.session h
    completions := completionsOk_step hinv.session hinv.completions h
    beats := beatsOk_step hinv.session hinv.beats h
    reader := readerOk_step hinv.session hinv.reader h }

theorem liveInv_run {handlers : Handlers Q A} {repo : Nat → Q → A} {input : Bytes}
    {acts : List StrandAct} {s : Strand Q A}
    (h : Runs.exec (step handlers repo) (init input) acts = some s) : LiveInv s :=
  Runs.exec_invariant (liveInv_step handlers repo) (liveInv_init input) h

/-- **A strand with a task in its queue is not blocked.** -/
theorem task_enabled (handlers : Handlers Q A) (repo : Nat → Q → A) {s : Strand Q A} {i : Nat}
    {task : Task} (hinv : LiveInv s) (htask : s.queue[i]? = some task) :
    ∃ t, s.step handlers repo (.run i false 0) = some t := by
  have hmem := List.mem_of_getElem? htask
  simp only [step, htask]
  cases task with
  | sendFrame a => exact ⟨_, rfl⟩
  | writeDone b ec =>
    have hb := hinv.completions.started b ec hmem
    have hb : b ∈ (s.take i).writer.outstanding := hb
    simp only [runTask, callWriter, Writer.call, if_pos hb]
    exact ⟨_, rfl⟩
  | cleanup => exact ⟨_, rfl⟩
  | readLoop =>
    have hcount := List.count_pos_iff.mpr hmem
    rw [hinv.session.reader] at hcount
    have hpos : ∃ r, s.readPos = .scheduled r := by
      cases hp : s.readPos with
      | scheduled r => exact ⟨r, rfl⟩
      | resumeWait | headerRead | bodyRead | handlerWait | finished =>
        simp [hp, ReadPos.tokens] at hcount
    obtain ⟨r, hp⟩ := hpos
    simp only [runTask, take, hp]
    exact ⟨_, rfl⟩
  | heartbeat =>
    have hcount := List.countP_pos_iff.mpr ⟨_, hmem, (rfl : isHeartbeat .heartbeat = true)⟩
    rw [hinv.beats.tokens] at hcount
    have hpos : ∃ r, s.hbPos = .scheduled r := by
      cases hp : s.hbPos with
      | scheduled r => exact ⟨r, rfl⟩
      | waiting | finished => simp [hp, HbPos.tokens] at hcount
    obtain ⟨r, hp⟩ := hpos
    simp only [runTask, take, hp]
    exact ⟨_, rfl⟩

end Strand

end Zem
