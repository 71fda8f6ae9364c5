import Zem.Login.Handler
import Zem.Session.Strand

/-!
# Requests and responses of a session

What a session queues for writing, `Heartbeat`'s pings left out, against what its input asks for.

* `dialogue` — the frames that the valid frames of the input lead to, one after the other, with
  `repo n` for the answer to the `n`-th question.  No tasks, timers or writes come in.
* `Strand.future` — what is still to come at a position of `ReadLoop`.
* `Strand.said` — accepted, posted and to come; `Orderly`, `orderly_step` — no step of an open
  session adds to it or reorders it.
* `dialogue_run` — the frames accepted are a prefix of the dialogue, for any handlers.
* `responses_correspond` — the result for the handlers that `MakeSession` installs.
-/

set_option autoImplicit false

namespace Zem

/-- The frames that are not pings. -/
def replies (fs : List Frame) : List Frame := fs.filter fun f => f.serviceType ≠ .ping

theorem replies_append (fs gs : List Frame) : replies (fs ++ gs) = replies fs ++ replies gs :=
  List.filter_append ..

theorem replies_mono {fs gs : List Frame} (h : fs <+: gs) : replies fs <+: replies gs := by
  obtain ⟨hs, rfl⟩ := h
  rw [replies_append]
  exact List.prefix_append _ _

/-! ## The dialogue -/

section

variable {Q A : Type} (handlers : Handlers Q A) (repo : Nat → Q → A)

/-- What a handler sends from its `n`-th question on, and how many questions have been asked when
    it returns; `none` if it throws or closes the connection. -/
def outputs (n : Nat) : Coroutine Q A ConnCall Unit → List Frame × Option Nat
  | .ret _ => ([], some n)
  | .throw => ([], none)
  | .perform (.send a) k => (a.frame :: (outputs n k).1, (outputs n k).2)
  | .perform .close _ => ([], none)
  | .await q k => outputs (n + 1) (k (repo n q))

/-- The dialogue with the frames `fs`, from the `n`-th question on. -/
def dialogue (n : Nat) : List Frame → List Frame
  | [] => []
  | f :: fs =>
    match f.serviceType with
    | .ping => ⟨.pong, f.apiVersion, []⟩ :: dialogue n fs
    | .pong => dialogue n fs
    | .login | .receiving =>
      let r := outputs repo n (handlers f.serviceType.index f.apiVersion f.body)
      match r.2 with
      | some m => r.1 ++ dialogue m fs
      | none => r.1

/-- What a handler and, if it returns, the frames after it lead to. -/
def continued (n : Nat) (c : Coroutine Q A ConnCall Unit) (fs : List Frame) : List Frame :=
  match (outputs repo n c).2 with
  | some m => (outputs repo n c).1 ++ dialogue handlers repo m fs
  | none => (outputs repo n c).1

theorem dialogue_body (n : Nat) {t : TCPServiceType} (v : UInt16) (body : Bytes)
    (fs : List Frame) (ht : t = .login ∨ t = .receiving) :
    dialogue handlers repo n (⟨t, v, body⟩ :: fs) =
      continued handlers repo n (handlers t.index v body) fs := by
  rcases ht with rfl | rfl <;> rfl

/-- The frames that calls of a handler send. -/
def sends (calls : List ConnCall) : List Frame :=
  calls.filterMap fun c =>
    match c with
    | .send a => some a.frame
    | .close => none

theorem sends_cons_send (a : SendArgs) (calls : List ConnCall) :
    sends (.send a :: calls) = a.frame :: sends calls := rfl

/-- A handler segment by segment. -/
theorem continued_segment (n : Nat) (c : Coroutine Q A ConnCall Unit) (fs : List Frame)
    (hopen : ConnCall.close ∉ c.segment.1) :
    continued handlers repo n c fs = sends c.segment.1 ++
      match c.segment.2 with
      | .returned _ => dialogue handlers repo n fs
      | .threw => []
      | .suspended q k => continued handlers repo (n + 1) (k (repo n q)) fs := by
  induction c with
  | ret x => rfl
  | throw => rfl
  | perform e c ih =>
    cases e with
    | send a =>
      have ih := ih fun h => hopen (List.mem_cons_of_mem _ h)
      rw [Coroutine.segment, sends_cons_send, List.cons_append, ← ih, continued, outputs, continued]
      cases (outputs repo n c).2 <;> rfl
    | close => exact absurd List.mem_cons_self hopen
  | await q k _ => rfl

end

/-! ## What is still to come -/

namespace Strand

variable {Q A : Type} (handlers : Handlers Q A) (repo : Nat → Q → A)

/-- What the session has been asked and will answer, by the position of `ReadLoop`. -/
def future (s : Strand Q A) : List Frame :=
  match s.readPos with
  | .resumeWait | .headerRead _ => dialogue handlers repo s.asked (framesOf s.input)
  | .bodyRead t v n _ =>
    if n ≤ s.input.length then
      continued handlers repo s.asked (handlers t.index v (s.input.take n))
        (framesOf (s.input.drop n))
    else []
  | .handlerWait q k =>
    continued handlers repo (s.asked + 1) (k (repo s.asked q)) (framesOf s.input)
  | .finished => []
  | .scheduled .start | .scheduled .woken => dialogue handlers repo s.asked (framesOf s.input)
  | .scheduled (.header (some bytes)) =>
    dialogue handlers repo s.asked (framesOf ((TCPHeaderConv.ofBytes bytes).bytes ++ s.input))
  | .scheduled (.body t v (some bytes)) =>
    continued handlers repo s.asked (handlers t.index v bytes) (framesOf s.input)
  | .scheduled (.header none) | .scheduled (.body _ _ none) => []
  | .scheduled (.answered rest) => continued handlers repo s.asked rest (framesOf s.input)

/-- The frame of a posted `SendFrame`. -/
def frame? : Task → Option Frame
  | .sendFrame a => some a.frame
  | .writeDone _ _ | .cleanup | .readLoop | .heartbeat => none

def posted (q : List Task) : List Frame := q.filterMap frame?

theorem posted_append (p q : List Task) : posted (p ++ q) = posted p ++ posted q :=
  List.filterMap_append

/-- Accepted, posted and to come. -/
def said (s : Strand Q A) : List Frame :=
  s.writer.accepted ++ posted s.queue ++ s.future handlers repo

/-! ## What the coroutines post -/

/-- From `s` to `t` the frames `fs` are posted, if the session is not closed on the way. -/
structure Posts (s t : Strand Q A) (fs : List Frame) : Prop where
  accepted : t.writer.accepted = s.writer.accepted
  input : t.input = s.input
  asked : t.asked = s.asked
  readPos : t.readPos = s.readPos
  posted : t.isClosed = false → s.isClosed = false ∧ posted t.queue = posted s.queue ++ fs

theorem Posts.refl (s : Strand Q A) : Posts s s [] :=
  ⟨rfl, rfl, rfl, rfl, fun h => ⟨h, (List.append_nil _).symm⟩⟩

theorem Posts.trans {s t u : Strand Q A} {fs gs : List Frame} (h : Posts s t fs)
    (h' : Posts t u gs) : Posts s u (fs ++ gs) := by
  refine ⟨h'.accepted.trans h.accepted, h'.input.trans h.input, h'.asked.trans h.asked,
    h'.readPos.trans h.readPos, fun hu => ?_⟩
  obtain ⟨ht, hq'⟩ := h'.posted hu
  obtain ⟨hs, hq⟩ := h.posted ht
  exact ⟨hs, by rw [hq', hq, List.append_assoc]⟩

theorem posts_post (s : Strand Q A) (a : SendArgs) : Posts s (s.post (.sendFrame a)) [a.frame] :=
  ⟨rfl, rfl, rfl, rfl, fun h => ⟨h, posted_append _ _⟩⟩

theorem isClosed_shutdown (s : Strand Q A) : s.shutdown.isClosed = true := by
  cases h : s.isClosed with
  | true => rw [shutdown_closed h, h]
  | false =>
    rw [shutdown_open h]
    rfl

/-- After a `Shutdown` the session is closed, so nothing is said about its frames. -/
theorem posts_shutdown (s : Strand Q A) (fs : List Frame) : Posts s s.shutdown fs := by
  have hnever : s.shutdown.isClosed = false →
      s.isClosed = false ∧ Strand.posted s.shutdown.queue = Strand.posted s.queue ++ fs := by
    intro h
    rw [isClosed_shutdown] at h
    cases h
  cases hc : s.isClosed with
  | true =>
    rw [shutdown_closed hc] at hnever ⊢
    exact ⟨rfl, rfl, rfl, rfl, hnever⟩
  | false =>
    rw [shutdown_open hc] at hnever ⊢
    exact ⟨rfl, rfl, rfl, rfl, hnever⟩

/-- A handler's calls post what they send; if one of them is `Close`, the session is closed. -/
theorem posts_performConn : ∀ (calls : List ConnCall) (s : Strand Q A),
    Posts s (calls.foldl performConn s) (sends calls) ∧
      ((calls.foldl performConn s).isClosed = false → ConnCall.close ∉ calls)
  | [], s => ⟨.refl s, fun _ => by simp⟩
  | .send a :: calls, s => by
    obtain ⟨hp, hc⟩ := posts_performConn calls (s.post (.sendFrame a))
    exact ⟨(posts_post s a).trans hp, fun h => by simpa using hc h⟩
  | .close :: calls, s => by
    obtain ⟨hp, _⟩ := posts_performConn calls s.shutdown
    refine ⟨(posts_shutdown s []).trans hp, fun h => ?_⟩
    have := (hp.posted h).1
    rw [isClosed_shutdown] at this
    cases this

/-- What `Heartbeat` posts is no reply. -/
theorem posts_heartbeat (s : Strand Q A) (idle : Nat) (r : HbResumption) :
    ∃ u p fs, Posts s u fs ∧ replies fs = [] ∧
      s.resumeHeartbeat idle r = { u with hbPos := p } := by
  have hcalls : ∀ (calls : List HbCall) (s : Strand Q A),
      ∃ fs, Posts s (calls.foldl performHb s) fs ∧ replies fs = [] := by
    intro calls
    induction calls with
    | nil => exact fun s => ⟨[], .refl s, rfl⟩
    | cons c calls ih =>
      intro s
      cases c with
      | sendPing =>
        obtain ⟨fs, hp, hfs⟩ := ih (s.post (.sendFrame s.writer.session.sendPing))
        exact ⟨_, (posts_post s _).trans hp, by rw [replies_append, hfs]; rfl⟩
      | shutdown =>
        obtain ⟨fs, hp, hfs⟩ := ih s.shutdown
        exact ⟨_, (posts_shutdown s []).trans hp, hfs⟩
  obtain ⟨fs, hp, hfs⟩ := hcalls _ s
  exact ⟨_, _, fs, hp, hfs, rfl⟩

/-! ## What a resumption says -/

/-- From `s`, whose resumption `r` has been taken off the queue, to `t` nothing is added and
    nothing reordered. -/
def Follows (s t : Strand Q A) (before : List Frame) : Prop :=
  t.writer.accepted = s.writer.accepted ∧
    (t.isClosed = false →
      posted t.queue ++ t.future handlers repo <+: posted s.queue ++ before)

variable {handlers repo}

theorem follows_goto {s u : Strand Q A} {fs before : List Frame} (h : Posts s u fs)
    (p : ReadPos Q A) (hp : u.isClosed = false →
      fs ++ (u.goto p).future handlers repo = before) :
    Follows handlers repo s (u.goto p) before := by
  refine ⟨h.accepted, fun hu => ?_⟩
  show posted u.queue ++ _ <+: _
  rw [(h.posted hu).2, List.append_assoc, hp hu]

theorem follows_stop {s u : Strand Q A} {fs : List Frame} (h : Posts s u fs)
    (before : List Frame) : Follows handlers repo s u.stop before := by
  have hp := h.trans (posts_shutdown u [])
  apply follows_goto hp _
  intro hu
  rw [isClosed_shutdown] at hu
  cases hu

theorem future_top (s : Strand Q A) :
    s.readLoopTop.future handlers repo = dialogue handlers repo s.asked (framesOf s.input) := by
  unfold readLoopTop
  split <;> rfl

variable (handlers repo) in
theorem follows_top {s u : Strand Q A} {fs : List Frame} (h : Posts s u fs) :
    Follows handlers repo s u.readLoopTop
      (fs ++ dialogue handlers repo s.asked (framesOf s.input)) := by
  apply follows_goto h _
  intro _
  rw [← h.asked, ← h.input]
  exact congrArg (fs ++ ·) (future_top u)

theorem follows_runHandler (s : Strand Q A) (c : Coroutine Q A ConnCall Unit) :
    Follows handlers repo s (s.runHandler c)
      (continued handlers repo s.asked c (framesOf s.input)) := by
  obtain ⟨hp, hclose⟩ := posts_performConn c.segment.1 s
  have hseg := continued_segment handlers repo s.asked c (framesOf s.input)
  unfold runHandler
  simp only
  split
  · rename_i hend
    rw [hend] at hseg
    obtain ⟨hacc, hopen⟩ := follows_top handlers repo hp
    refine ⟨hacc, fun hu => ?_⟩
    rw [hseg (hclose hu)]
    exact hopen hu
  · exact follows_stop hp _
  · rename_i q k hend
    rw [hend] at hseg
    apply follows_goto hp _
    intro hu
    rw [hseg (hclose hu), ← hp.asked, ← hp.input]
    rfl

variable (handlers repo) in
/-- **`ReadLoop` says what was to come.** -/
theorem follows_resumeReadLoop (s : Strand Q A) (r : Resumption Q A) :
    Follows handlers repo s (s.resumeReadLoop handlers r)
      ((s.goto (.scheduled r)).future handlers repo) := by
  cases r with
  | start => exact follows_top handlers repo (.refl s)
  | woken => exact follows_goto (.refl s) _ fun _ => rfl
  | header bytes =>
    cases bytes with
    | none => exact follows_stop (.refl s) _
    | some bytes =>
      have hset : Posts s (s.setSession
          (s.writer.session.onHeader (TCPHeaderConv.ofBytes bytes)).1) [] := by
        refine ⟨rfl, rfl, rfl, rfl, fun h => ⟨?_, (List.append_nil _).symm⟩⟩
        rw [TCPSession.onHeader_members] at h
        exact h
      have hdec := decodeFrame_onHeader s.writer.session (TCPHeaderConv.ofBytes bytes) s.input
      have hpeer := TCPSession.onHeader_peerApiVersion
        (h := TCPHeaderConv.ofBytes bytes) (s := s.writer.session)
      simp only [resumeReadLoop, future, goto]
      split
      · exact follows_stop hset _
      · rename_i hact
        rw [hact] at hdec hpeer
        rw [framesOf_of_some hdec]
        have := follows_top handlers repo (hset.trans (posts_post _
          (s.writer.session.onHeader (TCPHeaderConv.ofBytes bytes)).1.sendPong))
        simp only [TCPSession.sendPong, hpeer (by simp)] at this ⊢
        exact this
      · rename_i hact
        rw [hact] at hdec
        rw [framesOf_of_some hdec]
        exact follows_top handlers repo hset
      · rename_i t v n hact
        rw [hact] at hdec
        obtain ⟨_, _, _, ht, _⟩ := TCPSession.onHeader_readBody hact
        apply follows_goto hset _
        intro _
        show (if n ≤ s.input.length then continued handlers repo s.asked
          (handlers t.index v (s.input.take n)) (framesOf (s.input.drop n)) else []) = _
        by_cases hle : n ≤ s.input.length
        · simp only [if_pos hle] at hdec ⊢
          rw [framesOf_of_some hdec, dialogue_body handlers repo s.asked v _ _ ht]
        · simp only [if_neg hle] at hdec ⊢
          rw [framesOf_of_none hdec]
          rfl
  | body t v bytes =>
    cases bytes with
    | none => exact follows_stop (.refl s) _
    | some bytes => exact follows_runHandler s _
  | answered rest => exact follows_runHandler s rest

/-! ## One step -/

variable (handlers repo) in
/-- The calls of the write path post no frame, and leave what is to come. -/
theorem foldl_perform_said : ∀ (calls : List AsioCall) (s : Strand Q A),
    posted (calls.foldl perform s).queue = posted s.queue ∧
      (calls.foldl perform s).future handlers repo = s.future handlers repo
  | [], s => ⟨rfl, rfl⟩
  | c :: calls, s => by
    obtain ⟨hq, hf⟩ := foldl_perform_said calls (s.perform c)
    rw [List.foldl_cons, hq, hf]
    cases c with
    | asyncWrite b => exact ⟨rfl, rfl⟩
    | cancelResumeRead =>
      simp only [perform, cancelResumeRead]
      split
      · rename_i hp
        refine ⟨by simp [post, goto, posted, frame?], ?_⟩
        simp only [future, post, goto, hp]
      · exact ⟨rfl, rfl⟩
    | postCleanup => exact ⟨by simp [perform, post, posted, frame?], rfl⟩

theorem future_congr {s t : Strand Q A} (hp : t.readPos = s.readPos) (hi : t.input = s.input)
    (ha : t.asked = s.asked) : t.future handlers repo = s.future handlers repo := by
  simp only [future, hp, hi, ha]

theorem future_bodyRead {s : Strand Q A} {t : TCPServiceType} {v : UInt16} {n : Nat} {live : Bool}
    (hp : s.readPos = .bodyRead t v n live) (hle : n ≤ s.input.length) :
    s.future handlers repo = continued handlers repo s.asked
      (handlers t.index v (s.input.take n)) (framesOf (s.input.drop n)) := by
  simp only [future, hp, if_pos hle]

variable (handlers repo) in
/-- The cleanup cancels a wait, and says nothing. -/
theorem cleanup_said (s : Strand Q A) :
    posted s.cleanup.queue = posted s.queue ∧
      s.cleanup.future handlers repo = s.future handlers repo := by
  have hb : posted s.cancelHbTimer.queue = posted s.queue ∧
      s.cancelHbTimer.future handlers repo = s.future handlers repo := by
    unfold cancelHbTimer
    split
    · exact ⟨by simp [post, posted, frame?], rfl⟩
    · exact ⟨rfl, rfl⟩
  obtain ⟨hq, hf⟩ := foldl_perform_said handlers repo [.cancelResumeRead]
    s.cancelHbTimer
  exact ⟨hq.trans hb.1, hf.trans hb.2⟩

/-- The steps of a strand, which runs its tasks in order, of a session whose frames come from its
    own coroutines. -/
def InOrder : StrandAct → Prop
  | .run i _ _ => i = 0
  | .send _ => False
  | .readDone _ | .writeDone _ _ | .hbExpires | .answer | .closeFlag | .closePost => True

/-- What a step leaves of the frames.  Those accepted grow by none, or by the first one posted, and
    not in a closed session.  Those said do not change while the session is open, but for pings,
    and for what a failed read cuts off. -/
structure Orderly (handlers : Handlers Q A) (repo : Nat → Q → A) (s t : Strand Q A) : Prop where
  accepted : t.writer.accepted <+: s.writer.accepted ++ posted s.queue
  closed : s.isClosed = true → t.writer.accepted = s.writer.accepted
  said : t.isClosed = false → replies (t.said handlers repo) <+: replies (s.said handlers repo)

/-- A step that accepts no frame. -/
theorem orderly_of_said {s t : Strand Q A} (ha : t.writer.accepted = s.writer.accepted)
    (h : t.isClosed = false → replies (posted t.queue ++ t.future handlers repo) <+:
      replies (posted s.queue ++ s.future handlers repo)) : Orderly handlers repo s t := by
  refine ⟨ha ▸ List.prefix_append _ _, fun _ => ha, fun ho => ?_⟩
  simp only [said, ha, List.append_assoc]
  rw [replies_append, replies_append (s.writer.accepted)]
  exact (List.prefix_append_right_inj _).mpr (h ho)

/-- A step that changes neither the posted frames nor what is to come. -/
theorem orderly_of_eq {s t : Strand Q A} (ha : t.writer.accepted = s.writer.accepted)
    (hq : posted t.queue = posted s.queue)
    (hf : t.future handlers repo = s.future handlers repo) : Orderly handlers repo s t :=
  orderly_of_said ha fun _ => by
    rw [hq, hf]

variable (handlers repo) in
theorem callWriter_said {s t : Strand Q A} {act : WriterAct} (h : s.callWriter act = some t) :
    s.writer.step act = some t.writer ∧ posted t.queue = posted s.queue ∧
      t.future handlers repo = s.future handlers repo := by
  have hw := callWriter_writer h
  obtain ⟨w, calls, _, rfl⟩ := callWriter_some h
  exact ⟨hw, foldl_perform_said handlers repo calls { s with writer := w }⟩

/-- The first posted frame joins the accepted ones, or the session is closed. -/
theorem orderly_sendFrame {s t : Strand Q A} {a : SendArgs} {rest : List Task} {raced : Bool}
    {idle : Nat} (hinv : SessionInv s) (hq : s.queue = .sendFrame a :: rest)
    (h : (s.take 0).runTask handlers raced idle (.sendFrame a) = some t) :
    Orderly handlers repo s t := by
  have hs : posted s.queue = a.frame :: posted rest := by rw [hq]; rfl
  obtain ⟨hwriter, hpost, hfut⟩ : s.writer.step (.sendFrame a raced) = some t.writer ∧
      posted t.queue = posted rest ∧ t.future handlers repo = s.future handlers repo := by
    simp only [runTask] at h
    obtain ⟨u, hu, rfl⟩ := Option.map_eq_some_iff.mp h
    obtain ⟨hw, hp, hf⟩ := callWriter_said handlers repo hu
    refine ⟨hw, hp.trans ?_, hf⟩
    simp only [take, hq]
    rfl
  have hshut : t.writer.accepted = s.writer.accepted → t.isClosed = true →
      Orderly handlers repo s t := by
    intro ha hc
    apply orderly_of_said ha
    intro ho
    rw [hc] at ho
    cases ho
  have hpush : t.writer.accepted = s.writer.accepted ++ [a.frame] → s.isClosed = false →
      Orderly handlers repo s t := by
    intro ha ho
    refine ⟨?_, fun hc => ?_, fun _ => ?_⟩
    · rw [ha, hs]
      exact ⟨posted rest, List.append_assoc _ _ _⟩
    · rw [ho] at hc
      cases hc
    · have hsaid : t.said handlers repo = s.said handlers repo := by
        rw [said, said, ha, hpost, hfut, hs]
        simp
      rw [hsaid]
  rcases Writer.sendFrame_step hinv.writer.accounting.bounded hwriter with
    ⟨hc, hw⟩ | ⟨_, p, _, _, _, hw⟩ | ⟨ho, _, _, ⟨_, hw⟩ | ⟨_, _, hw⟩⟩
  · exact hshut (by rw [hw]) (by rw [isClosed, hw]; exact hc)
  · exact hshut (by rw [hw]) (by rw [isClosed, hw])
  · exact hpush (by rw [hw]; rfl) ho
  · exact hpush (by rw [hw]; rfl) ho

theorem orderly_writeDone {s t : Strand Q A} {b : Batch} {ec : Bool} {rest : List Task}
    (hq : s.queue = .writeDone b ec :: rest)
    (h : (s.take 0).callWriter (.writeDone b ec) = some t) : Orderly handlers repo s t := by
  obtain ⟨hw, hpost, hfut⟩ := callWriter_said handlers repo h
  refine orderly_of_eq ?_ (hpost.trans ?_) hfut
  · rcases (Writer.writeDone_step hw).2 with ⟨_, hw⟩ | ⟨_, _, hw⟩ | ⟨_, _, _, hw⟩
    all_goals rw [hw]; rfl
  · simp only [take, hq]
    rfl

theorem orderly_readDone {s t : Strand Q A} {n : Nat} {live ok : Bool}
    {r : Option Bytes → Resumption Q A} (h : s.readDone n live ok r = some t)
    (hgot : ∀ bytes rest, bytes.length = n → s.input = bytes ++ rest →
      future handlers repo ({ s with input := rest }.goto (.scheduled (r (some bytes)))) =
        s.future handlers repo)
    (hfail : future handlers repo (s.goto (.scheduled (r none))) = []) :
    Orderly handlers repo s t := by
  have hpost : ∀ q : List Task, posted (q ++ [.readLoop]) = posted q := by
    intro q
    simp [posted, frame?]
  rcases readDone_cases h with ⟨bytes, rest, hlen, hin, rfl⟩ | rfl
  · exact orderly_of_eq rfl (hpost _) (hgot bytes rest hlen hin)
  · refine orderly_of_said rfl fun _ => ?_
    have hnone : future handlers repo ((s.goto (.scheduled (r none))).post .readLoop) = [] := hfail
    rw [hnone, List.append_nil]
    show replies (posted (s.queue ++ [.readLoop])) <+: _
    rw [hpost]
    exact replies_mono (List.prefix_append _ _)

/-- The first task of the queue. -/
theorem queue_of_first {s : Strand Q A} {task : Task} (h : s.queue[0]? = some task) :
    ∃ rest, s.queue = task :: rest := by
  cases hq : s.queue with
  | nil => simp [hq] at h
  | cons x rest =>
    rw [hq] at h
    cases h
    exact ⟨rest, rfl⟩

theorem take_first {s : Strand Q A} {task : Task} {rest : List Task}
    (h : s.queue = task :: rest) : (s.take 0).queue = rest := by
  rw [take, h]
  rfl

theorem orderly_step (handlers : Handlers Q A) (repo : Nat → Q → A) (s : Strand Q A)
    (act : StrandAct) (t : Strand Q A) (hinv : SessionInv s) (hact : InOrder act)
    (h : s.step handlers repo act = some t) : Orderly handlers repo s t := by
  cases fires_of_step h with
  | sendFrame htask hrun =>
    cases hact
    obtain ⟨rest, hq⟩ := queue_of_first htask
    exact orderly_sendFrame hinv hq hrun
  | written htask hrun =>
    cases hact
    obtain ⟨rest, hq⟩ := queue_of_first htask
    exact orderly_writeDone hq hrun
  | cleanup htask =>
    cases hact
    obtain ⟨rest, hq⟩ := queue_of_first htask
    obtain ⟨hpost, hfut⟩ := cleanup_said handlers repo (s.take 0)
    refine orderly_of_eq (congrArg Writer.accepted (cleanup_spec _).1) ?_ hfut
    rw [hpost, take_first hq, hq]
    rfl
  | @readLoop i _ _ r htask hr =>
    cases hact
    obtain ⟨rest, hq⟩ := queue_of_first htask
    obtain ⟨ha, hsaid⟩ := follows_resumeReadLoop handlers repo (s.take 0) r
    refine orderly_of_said ha fun ho => replies_mono ?_
    have := hsaid ho
    have hfut : future handlers repo ((s.take 0).goto (.scheduled r)) =
        s.future handlers repo := future_congr hr.symm rfl rfl
    rw [take_first hq, hfut] at this
    rw [hq]
    exact this
  | @heartbeat i _ idle r htask _ =>
    cases hact
    obtain ⟨rest, hq⟩ := queue_of_first htask
    obtain ⟨u, p, fs, hp, hfs, hu⟩ := posts_heartbeat (s.take 0) idle r
    rw [hu]
    refine orderly_of_said hp.accepted fun ho => ?_
    have hfut : future handlers repo { u with hbPos := p } = s.future handlers repo :=
      future_congr hp.readPos hp.input hp.asked
    have hpost : posted u.queue = posted s.queue ++ fs := by
      rw [(hp.posted ho).2, take_first hq, hq]
      rfl
    rw [hfut]
    show replies (posted u.queue ++ _) <+: _
    rw [hpost, replies_append, replies_append, hfs, List.append_nil, ← replies_append]
  | headerDone hp hread =>
    refine orderly_readDone hread (fun bytes rest hlen hin => ?_) rfl
    simp only [future, goto, hp, TCPHeaderConv.bytes_ofBytes hlen, ← hin]
  | @bodyDone _ _ n _ _ _ hp hread =>
    refine orderly_readDone hread (fun bytes rest hlen hin => ?_) rfl
    have hle : n ≤ s.input.length := by
      rw [hin, List.length_append]
      omega
    rw [future_bodyRead hp hle, hin, ← hlen, List.take_left, List.drop_left]
    rfl
  | writeDone => exact orderly_of_eq rfl (by simp [post, posted, frame?]) rfl
  | hbExpires => exact orderly_of_eq rfl (by simp [post, posted, frame?]) rfl
  | answer hp =>
    refine orderly_of_eq rfl (by simp [post, goto, posted, frame?]) ?_
    simp only [future, post, goto, hp]
  | send => exact hact.elim
  | closeFlag => exact orderly_of_eq rfl rfl rfl
  | closePost => exact orderly_of_eq rfl (by simp [post, posted, frame?]) rfl

/-! ## Every run -/

structure DialogueInv (handlers : Handlers Q A) (repo : Nat → Q → A) (input : Bytes)
    (s : Strand Q A) : Prop where
  session : SessionInv s
  accepted : replies s.writer.accepted <+: replies (dialogue handlers repo 0 (framesOf input))
  said : s.isClosed = false →
    replies (s.said handlers repo) <+: replies (dialogue handlers repo 0 (framesOf input))

theorem dialogueInv_step (handlers : Handlers Q A) (repo : Nat → Q → A) (input : Bytes)
    (s : Strand Q A) (act : StrandAct) (t : Strand Q A) (hinv : DialogueInv handlers repo input s)
    (hact : InOrder act) (h : s.step handlers repo act = some t) :
    DialogueInv handlers repo input t := by
  have horder := orderly_step handlers repo s act t hinv.session hact h
  have hsess := sessionInv_step handlers repo s act t hinv.session h
  have hacc : replies t.writer.accepted <+:
      replies (dialogue handlers repo 0 (framesOf input)) := by
    cases hc : s.isClosed with
    | true =>
      rw [horder.closed hc]
      exact hinv.accepted
    | false =>
      have hsaid : s.writer.accepted ++ posted s.queue <+: s.said handlers repo :=
        List.prefix_append _ _
      exact (replies_mono (horder.accepted.trans hsaid)).trans (hinv.said hc)
  have hreach := writer_step handlers repo s act t hinv.session h
  exact ⟨hsess, hacc, fun ho =>
    (horder.said ho).trans (hinv.said (open_of_reaches hinv.session.writer hreach ho))⟩

/-- **What a session accepts is a prefix of the dialogue**, pings left out, for any handlers. -/
theorem dialogue_run {handlers : Handlers Q A} {repo : Nat → Q → A} {input : Bytes}
    {acts : List StrandAct} {s : Strand Q A} (hacts : ∀ act ∈ acts, InOrder act)
    (h : Runs.exec (step handlers repo) (init input) acts = some s) :
    replies s.writer.accepted <+: replies (dialogue handlers repo 0 (framesOf input)) := by
  refine (Runs.exec_invariant_of (dialogueInv_step handlers repo input)
    ⟨sessionInv_init input, List.nil_prefix, fun _ => ?_⟩ hacts h).accepted
  exact List.prefix_rfl

end Strand

/-! ## The handlers of the server -/

/-- The handler that `MakeSession` fills the array with. -/
def unhandled : Handler Bytes DbOutcome := fun _ _ => .perform .close (.ret ())

/-- The handlers of `TCPServer::MakeSession`. -/
def makeSessionHandlers : Handlers Bytes DbOutcome := fun i =>
  if i = TCPServiceType.login.index then loginTask else unhandled

/-- The responses to a list of frames, with `repo n` for the answer to the `n`-th well-formed
    login. -/
def responses (repo : Nat → Bytes → DbOutcome) (n : Nat) : List Frame → List Frame
  | [] => []
  | f :: fs =>
    match f.serviceType with
    | .ping => ⟨.pong, f.apiVersion, []⟩ :: responses repo n fs
    | .pong => responses repo n fs
    | .login =>
      match LoginCodec.decodeRequest f.apiVersion f.body with
      | some dto =>
        (loginResponse f.apiVersion (loginResult (repo n dto.id) dto.password)).frame ::
          responses repo (n + 1) fs
      | none => responses repo n fs
    | .receiving => []

theorem dialogue_makeSession (repo : Nat → Bytes → DbOutcome) : ∀ (fs : List Frame) (n : Nat),
    dialogue makeSessionHandlers repo n fs = responses repo n fs
  | [], n => rfl
  | ⟨t, v, body⟩ :: fs, n => by
    cases t with
    | ping => exact congrArg (_ :: ·) (dialogue_makeSession repo fs n)
    | pong => exact dialogue_makeSession repo fs n
    | login =>
      rw [dialogue_body makeSessionHandlers repo n v body fs (Or.inl rfl)]
      have hlogin : makeSessionHandlers TCPServiceType.login.index v body = loginTask v body := rfl
      cases hdec : LoginCodec.decodeRequest v body with
      | none =>
        have hseg := loginTask_segment_none hdec
        rw [hlogin, continued_segment _ _ _ _ _ (by rw [hseg]; simp), hseg]
        simp only [responses, hdec]
        exact dialogue_makeSession repo fs n
      | some dto =>
        rw [hlogin, loginTask_some hdec]
        simp only [responses, hdec]
        exact congrArg (_ :: ·) (dialogue_makeSession repo fs (n + 1))
    | receiving => rfl

/-- A response is never a ping. -/
theorem replies_responses (repo : Nat → Bytes → DbOutcome) : ∀ (fs : List Frame) (n : Nat),
    replies (responses repo n fs) = responses repo n fs
  | [], _ => rfl
  | ⟨t, v, body⟩ :: fs, n => by
    cases t with
    | ping => exact congrArg (_ :: ·) (replies_responses repo fs n)
    | pong => exact replies_responses repo fs n
    | login =>
      simp only [responses]
      split
      · exact congrArg (_ :: ·) (replies_responses repo fs (n + 1))
      · exact replies_responses repo fs n
    | receiving => rfl

/-! ## Result -/

/-- **Requests and responses correspond.**  In every run the frames queued, pings left out, are a
    prefix of the responses to the frames received, which depend on the input and the
    repository's answers alone. -/
theorem responses_correspond {repo : Nat → Bytes → DbOutcome} {input : Bytes}
    {acts : List StrandAct} {s : Strand Bytes DbOutcome}
    (hacts : ∀ act ∈ acts, Strand.InOrder act)
    (h : Runs.exec (Strand.step makeSessionHandlers repo) (Strand.init input) acts = some s) :
    replies s.writer.accepted <+: responses repo 0 (framesOf input) := by
  rw [← replies_responses, ← dialogue_makeSession]
  exact Strand.dialogue_run hacts h

/-- A client sends a ping and, without waiting, a login for the id `a` with the password `b`. -/
def pingAndLogin : Bytes :=
  [0, 0, 0, 0, 0, 0, 0, 0, 0, 1] ++
    [0, 0, 0, 2, 0, 0, 0, 10, 0, 1, 0, 0, 0, 1, 97, 0, 0, 0, 1, 98]

/-- The ping is read and its pong queued; the login is read, its handler asks and is answered, and
    the response is queued. -/
def answerBoth : List StrandAct :=
  [.run 0 false 0, .run 0 false 0, .readDone true, .run 0 false 0, .run 0 false 0,
    .readDone true, .run 0 false 0, .readDone true, .run 0 false 0, .answer, .run 0 false 0,
    .run 0 false 0]

/-- The rule at that run: the pong first, and then the response. -/
theorem responses_correspond_pipelined :
    ∃ s, Runs.exec (Strand.step makeSessionHandlers fun _ _ => .leased (.row .ok [98]))
        (Strand.init pingAndLogin) answerBoth = some s ∧
      replies s.writer.accepted = [⟨.pong, 1, []⟩, ⟨.login, 1, [0, 0, 0, 0]⟩] ∧
      replies s.writer.accepted <+:
        responses (fun _ _ => .leased (.row .ok [98])) 0 (framesOf pingAndLogin) := by
  have hrun : Runs.exec (Strand.step makeSessionHandlers fun _ _ => .leased (.row .ok [98]))
      (Strand.init pingAndLogin) answerBoth = some _ := rfl
  exact ⟨_, hrun, rfl, responses_correspond (by simp [answerBoth, Strand.InOrder]) hrun⟩

end Zem
