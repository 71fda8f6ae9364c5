import Mathlib.Data.List.Perm.Basic
import Zem.Session.Heartbeat
import Zem.Session.OutputStream
import Zem.Session.ReadLoop

/-!
# A session on its strand

The tasks of one `TCPSession` and the events that post them.  The functions are those of
`TCPSession.lean`, `ReadLoop.lean` and `Heartbeat.lean`; this module adds what Asio and the rest of
the process do: the task queue, the reads and writes in progress, the timers, the database, other
threads that call `Send` or `Shutdown`.

* `Strand` — the session with its two coroutines, its queue and the bytes to come.
* `Strand.step` — one task of the queue, or one event.  A strand runs its tasks in the order of the
  queue, which is `run 0`; other indices stand for any other order.
* `Fires`, `fires_of_step` — the steps that are taken, and what enables each of them.
* `Calls` — what a coroutine can do between two waits; `resumeReadLoop_spec`,
  `resumeHeartbeat_spec`.
* `writer_step`, `writer_run` — a run of the session is a run of the write path.
* `SessionInv`, `sessionInv_step`, `sessionInv_run` — the cleanup is owed, posted or done once,
  from the moment the session is closed; each coroutine has one resumption at most.

A read that was started before the socket was closed may still complete, one that was started
after it fails.
-/

set_option autoImplicit false

namespace Zem

/-! ## State -/

inductive Task where
  | sendFrame (a : SendArgs)
  | writeDone (b : Batch) (ec : Bool)
  | cleanup
  | readLoop
  | heartbeat
  deriving DecidableEq, Repr

/-- What `ReadLoop` is resumed with; `none` is an error code of `async_read`. -/
inductive Resumption (Q A : Type) where
  | start
  | woken
  | header (bytes : Option Bytes)
  | body (serviceType : TCPServiceType) (apiVersion : UInt16) (bytes : Option Bytes)
  | answered (rest : Coroutine Q A ConnCall Unit)

/-- Where `ReadLoop` is: its resumption is in the queue; it waits on `m_resume_read`, for a header,
    for a body, or for the answer to its handler; or it has ended.  `live` says that a read was
    started on an open socket. -/
inductive ReadPos (Q A : Type) where
  | scheduled (r : Resumption Q A)
  | resumeWait
  | headerRead (live : Bool)
  | bodyRead (serviceType : TCPServiceType) (apiVersion : UInt16) (dataSize : Nat) (live : Bool)
  | handlerWait (q : Q) (k : A → Coroutine Q A ConnCall Unit)
  | finished

/-- The resumptions in the queue. -/
def ReadPos.tokens {Q A : Type} : ReadPos Q A → Nat
  | .scheduled _ => 1
  | .resumeWait | .headerRead _ | .bodyRead _ _ _ _ | .handlerWait _ _ | .finished => 0

inductive HbResumption where
  | start
  | woken (wait : HbWait) (aborted : Bool)
  deriving DecidableEq, Repr

inductive HbPos where
  | scheduled (r : HbResumption)
  | waiting (wait : HbWait)
  | finished
  deriving DecidableEq, Repr

/-- `input` is what the client sends and has not been read; `asked` counts the answered questions;
    `owed` is another thread between the two statements of its `Shutdown`. -/
structure Strand (Q A : Type) where
  writer : Writer
  queue : List Task
  readPos : ReadPos Q A
  hbPos : HbPos
  input : Bytes
  asked : Nat
  owed : Bool
  cleanedUp : Bool

inductive StrandAct where
  | run (i : Nat) (raced : Bool) (idle : Nat)
  | readDone (ok : Bool)
  | writeDone (b : Batch) (ec : Bool)
  | hbExpires
  | answer
  | send (a : SendArgs)
  | closeFlag
  | closePost
  deriving DecidableEq, Repr

/-- The step is a task of the strand. -/
def StrandAct.isRun : StrandAct → Bool
  | .run _ _ _ => true
  | .readDone _ | .writeDone _ _ | .hbExpires | .answer | .send _ | .closeFlag | .closePost => false

namespace Strand

variable {Q A : Type}

/-- The state that `StartHandling` leaves. -/
def init (input : Bytes) : Strand Q A :=
  { writer := .init
    queue := [.readLoop, .heartbeat]
    readPos := .scheduled .start
    hbPos := .scheduled .start
    input := input
    asked := 0
    owed := false
    cleanedUp := false }

abbrev isClosed (s : Strand Q A) : Bool := s.writer.session.isClosed
abbrev backpressure (s : Strand Q A) : Bool := s.writer.session.backpressure

/-! ## Asio -/

def post (s : Strand Q A) (task : Task) : Strand Q A := { s with queue := s.queue ++ [task] }

def goto (s : Strand Q A) (p : ReadPos Q A) : Strand Q A := { s with readPos := p }

/-- `m_resume_read.cancel()`. -/
def cancelResumeRead (s : Strand Q A) : Strand Q A :=
  match s.readPos with
  | .resumeWait => (s.goto (.scheduled .woken)).post .readLoop
  | _ => s

/-- `m_hb_timer.cancel()`. -/
def cancelHbTimer (s : Strand Q A) : Strand Q A :=
  match s.hbPos with
  | .waiting w => { s with hbPos := .scheduled (.woken w true) }.post .heartbeat
  | _ => s

/-- The writer keeps the writes it has started. -/
def perform (s : Strand Q A) : AsioCall → Strand Q A
  | .asyncWrite _ => s
  | .cancelResumeRead => s.cancelResumeRead
  | .postCleanup => s.post .cleanup

def callWriter (s : Strand Q A) (act : WriterAct) : Option (Strand Q A) :=
  (s.writer.call act).map fun r => r.2.foldl perform { s with writer := r.1 }

/-! ## The coroutines -/

def setSession (s : Strand Q A) (session : TCPSession) : Strand Q A :=
  { s with writer := { s.writer with session := session } }

/-- `Shutdown`, called on the strand. -/
def shutdown (s : Strand Q A) : Strand Q A :=
  let r := s.writer.session.shutdown
  r.2.foldl perform (s.setSession r.1)

/-- `Shutdown(); co_return;` -/
def stop (s : Strand Q A) : Strand Q A := s.shutdown.goto .finished

/-- The top of the loop, up to its first wait. -/
def readLoopTop (s : Strand Q A) : Strand Q A :=
  s.goto (if s.backpressure then .resumeWait else .headerRead (!s.cleanedUp))

def performConn (s : Strand Q A) : ConnCall → Strand Q A
  | .send a => s.post (.sendFrame a)
  | .close => s.shutdown

/-- The `try` block around the handler, up to the handler's next wait or its end. -/
def runHandler (s : Strand Q A) (c : Coroutine Q A ConnCall Unit) : Strand Q A :=
  let s := c.segment.1.foldl performConn s
  match c.segment.2 with
  | .returned _ => s.readLoopTop
  | .threw => s.stop
  | .suspended q k => s.goto (.handlerWait q k)

/-- `ReadLoop` up to its next wait. -/
def resumeReadLoop (handlers : Handlers Q A) (s : Strand Q A) : Resumption Q A → Strand Q A
  | .start => s.readLoopTop
  | .woken => s.goto (.headerRead (!s.cleanedUp))
  | .header none => s.stop
  | .header (some bytes) =>
    let r := s.writer.session.onHeader (TCPHeaderConv.ofBytes bytes)
    let s := s.setSession r.1
    match r.2 with
    | .reject => s.stop
    | .ping => (s.post (.sendFrame r.1.sendPong)).readLoopTop
    | .pong => s.readLoopTop
    | .readBody t v n => s.goto (.bodyRead t v n (!s.cleanedUp))
  | .body _ _ none => s.stop
  | .body t v (some bytes) => s.runHandler (handlers t.index v bytes)
  | .answered rest => s.runHandler rest

/-- The handler whose segment the resumption runs. -/
def resumedHandler (handlers : Handlers Q A) :
    Resumption Q A → Option (Coroutine Q A ConnCall Unit)
  | .body t v (some bytes) => some (handlers t.index v bytes)
  | .answered rest => some rest
  | .start | .woken | .header _ | .body _ _ none => none

theorem resumeReadLoop_handler {handlers : Handlers Q A} {s : Strand Q A} {r : Resumption Q A}
    {c : Coroutine Q A ConnCall Unit} (h : resumedHandler handlers r = some c) :
    s.resumeReadLoop handlers r = s.runHandler c := by
  cases r with
  | start => cases h
  | woken => cases h
  | header bytes => cases h
  | body t v bytes =>
    cases bytes with
    | none => cases h
    | some bytes =>
      cases h
      rfl
  | answered rest =>
    cases h
    rfl

def performHb (s : Strand Q A) : HbCall → Strand Q A
  | .sendPing => s.post (.sendFrame s.writer.session.sendPing)
  | .shutdown => s.shutdown

/-- `Heartbeat` up to its next wait. -/
def resumeHeartbeat (s : Strand Q A) (idle : Nat) (r : HbResumption) : Strand Q A :=
  let r := match r with
    | .start => ([], heartbeatTop s.isClosed)
    | .woken wait aborted => heartbeatResume s.isClosed wait aborted idle
  { r.1.foldl performHb s with
    hbPos := match r.2 with
      | none => .finished
      | some wait => .waiting wait }

/-- The task that `Shutdown` posts. -/
def cleanup (s : Strand Q A) : Strand Q A :=
  { s.cancelHbTimer.cancelResumeRead with cleanedUp := true }

/-! ## Steps -/

/-- One task.  `raced` is another thread's `Shutdown` in the middle of `SendFrame`, and `idle` what
    `Heartbeat` reads off the clock. -/
def runTask (handlers : Handlers Q A) (raced : Bool) (idle : Nat) (s : Strand Q A) :
    Task → Option (Strand Q A)
  | .sendFrame a =>
    (s.callWriter (.sendFrame a raced)).map fun t =>
      { t with owed := s.owed || (raced && !s.isClosed) }
  | .writeDone b ec => s.callWriter (.writeDone b ec)
  | .cleanup => some s.cleanup
  | .readLoop =>
    match s.readPos with
    | .scheduled r => some (s.resumeReadLoop handlers r)
    | _ => none
  | .heartbeat =>
    match s.hbPos with
    | .scheduled r => some (s.resumeHeartbeat idle r)
    | _ => none

def take (s : Strand Q A) (i : Nat) : Strand Q A := { s with queue := s.queue.eraseIdx i }

/-- An `async_read` of `n` bytes completes. -/
def readDone (s : Strand Q A) (n : Nat) (live ok : Bool) (r : Option Bytes → Resumption Q A) :
    Option (Strand Q A) :=
  if ok then
    match asyncRead n (!live) s.input with
    | none => none
    | some (bytes, rest) =>
      some (({ s with input := rest }.goto (.scheduled (r (some bytes)))).post .readLoop)
  else some ((s.goto (.scheduled (r none))).post .readLoop)

def isWriteDone : Task → Bool
  | .writeDone _ _ => true
  | .sendFrame _ | .cleanup | .readLoop | .heartbeat => false

/-- One task of the queue, or one event. -/
def step (handlers : Handlers Q A) (repo : Nat → Q → A) (s : Strand Q A) :
    StrandAct → Option (Strand Q A)
  | .run i raced idle =>
    match s.queue[i]? with
    | none => none
    | some task => (s.take i).runTask handlers raced idle task
  | .readDone ok =>
    match s.readPos with
    | .headerRead live => s.readDone TCPHeaderConv.size live ok .header
    | .bodyRead t v n live => s.readDone n live ok (.body t v)
    | _ => none
  | .writeDone b ec =>
    if b ∈ s.writer.outstanding ∧ s.queue.any isWriteDone = false then
      some (s.post (.writeDone b ec))
    else none
  | .hbExpires =>
    match s.hbPos with
    | .waiting w => some ({ s with hbPos := .scheduled (.woken w false) }.post .heartbeat)
    | _ => none
  | .answer =>
    match s.readPos with
    | .handlerWait q k =>
      some (({ s with asked := s.asked + 1 }.goto
        (.scheduled (.answered (k (repo s.asked q))))).post .readLoop)
    | _ => none
  | .send a => some (s.post (.sendFrame a))
  | .closeFlag =>
    if s.isClosed then none
    else some { s.setSession { s.writer.session with isClosed := true } with owed := true }
  | .closePost => if s.owed then some ({ s with owed := false }.post .cleanup) else none

/-- The steps that are taken, with what enables each of them. -/
inductive Fires (handlers : Handlers Q A) (repo : Nat → Q → A) (s : Strand Q A) :
    StrandAct → Strand Q A → Prop where
  | sendFrame {i : Nat} {raced : Bool} {idle : Nat} {a : SendArgs} {t : Strand Q A}
      (task : s.queue[i]? = some (.sendFrame a))
      (runs : (s.take i).runTask handlers raced idle (.sendFrame a) = some t) :
      Fires handlers repo s (.run i raced idle) t
  | written {i : Nat} {raced : Bool} {idle : Nat} {b : Batch} {ec : Bool} {t : Strand Q A}
      (task : s.queue[i]? = some (.writeDone b ec))
      (runs : (s.take i).callWriter (.writeDone b ec) = some t) :
      Fires handlers repo s (.run i raced idle) t
  | cleanup {i : Nat} {raced : Bool} {idle : Nat} (task : s.queue[i]? = some .cleanup) :
      Fires handlers repo s (.run i raced idle) (s.take i).cleanup
  | readLoop {i : Nat} {raced : Bool} {idle : Nat} {r : Resumption Q A}
      (task : s.queue[i]? = some .readLoop) (pos : s.readPos = .scheduled r) :
      Fires handlers repo s (.run i raced idle) ((s.take i).resumeReadLoop handlers r)
  | heartbeat {i : Nat} {raced : Bool} {idle : Nat} {r : HbResumption}
      (task : s.queue[i]? = some .heartbeat) (pos : s.hbPos = .scheduled r) :
      Fires handlers repo s (.run i raced idle) ((s.take i).resumeHeartbeat idle r)
  | headerDone {live ok : Bool} {t : Strand Q A} (pos : s.readPos = .headerRead live)
      (reads : s.readDone TCPHeaderConv.size live ok .header = some t) :
      Fires handlers repo s (.readDone ok) t
  | bodyDone {serviceType : TCPServiceType} {v : UInt16} {n : Nat} {live ok : Bool}
      {t : Strand Q A} (pos : s.readPos = .bodyRead serviceType v n live)
      (reads : s.readDone n live ok (.body serviceType v) = some t) :
      Fires handlers repo s (.readDone ok) t
  | writeDone {b : Batch} {ec : Bool} (started : b ∈ s.writer.outstanding) :
      Fires handlers repo s (.writeDone b ec) (s.post (.writeDone b ec))
  | hbExpires {w : HbWait} (pos : s.hbPos = .waiting w) :
      Fires handlers repo s .hbExpires
        ({ s with hbPos := .scheduled (.woken w false) }.post .heartbeat)
  | answer {q : Q} {k : A → Coroutine Q A ConnCall Unit} (pos : s.readPos = .handlerWait q k) :
      Fires handlers repo s .answer (({ s with asked := s.asked + 1 }.goto
        (.scheduled (.answered (k (repo s.asked q))))).post .readLoop)
  | send {a : SendArgs} : Fires handlers repo s (.send a) (s.post (.sendFrame a))
  | closeFlag (opened : s.isClosed = false) :
      Fires handlers repo s .closeFlag
        { s.setSession { s.writer.session with isClosed := true } with owed := true }
  | closePost (owes : s.owed = true) :
      Fires handlers repo s .closePost ({ s with owed := false }.post .cleanup)

theorem fires_of_step {handlers : Handlers Q A} {repo : Nat → Q → A} {s t : Strand Q A}
    {act : StrandAct} (h : s.step handlers repo act = some t) : Fires handlers repo s act t := by
  cases act with
  | run i raced idle =>
    simp only [step] at h
    split at h
    · cases h
    rename_i task htask
    cases task with
    | sendFrame a => exact .sendFrame htask h
    | writeDone b ec => exact .written htask h
    | cleanup =>
      cases h
      exact .cleanup htask
    | readLoop =>
      simp only [runTask] at h
      split at h
      · rename_i r hr
        cases h
        exact .readLoop htask hr
      · cases h
    | heartbeat =>
      simp only [runTask] at h
      split at h
      · rename_i r hr
        cases h
        exact .heartbeat htask hr
      · cases h
  | readDone ok =>
    simp only [step] at h
    split at h
    · rename_i live hp
      exact .headerDone hp h
    · rename_i serviceType v n live hp
      exact .bodyDone hp h
    · cases h
  | writeDone b ec =>
    simp only [step] at h
    split at h
    · rename_i hb
      cases h
      exact .writeDone hb.1
    · cases h
  | hbExpires =>
    simp only [step] at h
    split at h
    · rename_i w hp
      cases h
      exact .hbExpires hp
    · cases h
  | answer =>
    simp only [step] at h
    split at h
    · rename_i q k hp
      cases h
      exact .answer hp
    · cases h
  | send a =>
    cases h
    exact .send
  | closeFlag =>
    simp only [step] at h
    split at h
    · cases h
    · rename_i hc
      cases h
      exact .closeFlag (Bool.eq_false_iff.mpr hc)
  | closePost =>
    simp only [step] at h
    split at h
    · rename_i ho
      cases h
      exact .closePost ho
    · cases h

/-- A read gets the next bytes of the input, or fails. -/
theorem readDone_cases {s t : Strand Q A} {n : Nat} {live ok : Bool}
    {r : Option Bytes → Resumption Q A} (h : s.readDone n live ok r = some t) :
    (∃ got rest, got.length = n ∧ s.input = got ++ rest ∧
      t = ({ s with input := rest }.goto (.scheduled (r (some got)))).post .readLoop) ∨
    t = (s.goto (.scheduled (r none))).post .readLoop := by
  unfold readDone at h
  split at h
  · split at h
    · cases h
    · rename_i got rest hread
      obtain ⟨_, hlen, hin⟩ := asyncRead_eq_some hread
      cases h
      exact Or.inl ⟨got, rest, hlen, hin, rfl⟩
  · cases h
    exact Or.inr rfl

/-! ## Counting cleanups and resumptions -/

/-- The cleanups owed, posted and done. -/
def cleanups (s : Strand Q A) : Nat :=
  s.owed.toNat + s.queue.count .cleanup + s.cleanedUp.toNat

theorem count_take {s : Strand Q A} {i : Nat} {task : Task} (h : s.queue[i]? = some task)
    (x : Task) : s.queue.count x = (s.take i).queue.count x + (if task = x then 1 else 0) := by
  obtain ⟨hi, rfl⟩ := List.getElem?_eq_some_iff.mp h
  rw [← (List.getElem_cons_eraseIdx_perm hi).count_eq, List.count_cons]
  simp only [take, beq_iff_eq]

theorem count_post (s : Strand Q A) (task x : Task) :
    (s.post task).queue.count x = s.queue.count x + (if task = x then 1 else 0) := by
  simp only [post, List.count_append, List.count_singleton, beq_iff_eq]

/-! ## What a coroutine can do between two waits -/

/-- From `s` to `t` by calls of a coroutine: it stores the peer's version, posts frames and calls
    `Shutdown`. -/
structure Calls (s t : Strand Q A) : Prop where
  writer : Runs.Reaches Writer.step s.writer t.writer
  backpressure : t.backpressure = s.backpressure
  cleanups : t.cleanups + s.isClosed.toNat = s.cleanups + t.isClosed.toNat
  reader : t.queue.count .readLoop = s.queue.count .readLoop
  readPos : t.readPos = s.readPos
  cleanedUp : t.cleanedUp = s.cleanedUp

theorem Calls.refl (s : Strand Q A) : Calls s s := ⟨.refl _, rfl, rfl, rfl, rfl, rfl⟩

theorem Calls.trans {s t u : Strand Q A} (h : Calls s t) (h' : Calls t u) : Calls s u := by
  have hc := h.cleanups
  have hc' := h'.cleanups
  exact ⟨h.writer.trans h'.writer, h'.backpressure.trans h.backpressure, by omega,
    h'.reader.trans h.reader, h'.readPos.trans h.readPos, h'.cleanedUp.trans h.cleanedUp⟩

theorem calls_post (s : Strand Q A) (a : SendArgs) : Calls s (s.post (.sendFrame a)) := by
  refine ⟨.refl _, rfl, ?_, ?_, rfl, rfl⟩
  · simp [Strand.cleanups, post]
  · simp [post]

theorem shutdown_open {s : Strand Q A} (h : s.isClosed = false) :
    s.shutdown = (s.setSession { s.writer.session with isClosed := true }).post .cleanup := by
  simp only [shutdown, TCPSession.shutdown_open h]
  rfl

theorem shutdown_closed {s : Strand Q A} (h : s.isClosed = true) : s.shutdown = s := by
  simp only [shutdown, TCPSession.shutdown_closed h]
  rfl

theorem writer_shutdown (s : Strand Q A) : s.writer.step .shutdown = some s.shutdown.writer := by
  cases h : s.isClosed with
  | true =>
    simp only [shutdown_closed h, Writer.step, Writer.call, TCPSession.shutdown_closed h]
    rfl
  | false =>
    simp only [shutdown_open h, Writer.step, Writer.call, TCPSession.shutdown_open h]
    rfl

theorem calls_shutdown (s : Strand Q A) : Calls s s.shutdown := by
  cases h : s.isClosed with
  | true =>
    rw [shutdown_closed h]
    exact .refl s
  | false =>
    have hw := writer_shutdown s
    rw [shutdown_open h] at hw ⊢
    refine ⟨.single hw, rfl, ?_, ?_, rfl, rfl⟩
    · show s.owed.toNat + (s.queue ++ [Task.cleanup]).count .cleanup + s.cleanedUp.toNat +
        s.isClosed.toNat = s.owed.toNat + s.queue.count .cleanup + s.cleanedUp.toNat + 1
      rw [h, List.count_append]
      simp only [List.count_singleton_self, Bool.toNat_false]
      omega
    · simp [count_post, setSession]

theorem calls_onHeader (s : Strand Q A) (h : TCPHeaderConv) :
    Calls s (s.setSession (s.writer.session.onHeader h).1) := by
  rw [TCPSession.onHeader_members]
  exact ⟨.single (a := .setPeerApiVersion _) rfl, rfl, rfl, rfl, rfl, rfl⟩

theorem calls_performConn (s : Strand Q A) (c : ConnCall) : Calls s (s.performConn c) := by
  cases c with
  | send a => exact calls_post s a
  | close => exact calls_shutdown s

theorem calls_foldl {C : Type} {f : Strand Q A → C → Strand Q A} (hf : ∀ s c, Calls s (f s c))
    (s : Strand Q A) (calls : List C) : Calls s (calls.foldl f s) :=
  List.foldlRecOn calls f (.refl s) fun t ht c _ => ht.trans (hf t c)

/-- The resumption takes the loop to its top. -/
def EndsIteration (handlers : Handlers Q A) (session : TCPSession) : Resumption Q A → Prop
  | .start => True
  | .woken => False
  | .header none => False
  | .header (some bytes) =>
    (session.onHeader (TCPHeaderConv.ofBytes bytes)).2 = .ping ∨
      (session.onHeader (TCPHeaderConv.ofBytes bytes)).2 = .pong
  | .body _ _ none => False
  | .body t v (some bytes) => (handlers t.index v bytes).segment.2 = .returned ()
  | .answered rest => rest.segment.2 = .returned ()

/-- The coroutine makes its calls and then waits at `p`: on `m_resume_read` exactly if `ends` holds
    and there is backpressure. -/
def WaitsAt (s t : Strand Q A) (ends : Prop) : Prop :=
  ∃ u p, Calls s u ∧ t = u.goto p ∧ p.tokens = 0 ∧
    (p = .resumeWait ↔ ends ∧ s.backpressure = true)

theorem waitsAt_top {s u : Strand Q A} (h : Calls s u) {ends : Prop} (he : ends) :
    WaitsAt s u.readLoopTop ends := by
  refine ⟨u, _, h, rfl, ?_, ?_⟩
  · split <;> rfl
  · rw [h.backpressure]
    split
    · rename_i hb
      simp [he, hb]
    · rename_i hb
      simp [hb]

theorem waitsAt_goto {s u : Strand Q A} (h : Calls s u) {p : ReadPos Q A} (hp : p.tokens = 0)
    (hne : p ≠ .resumeWait) {ends : Prop} (he : ¬ ends) : WaitsAt s (u.goto p) ends :=
  ⟨u, p, h, rfl, hp, fun h => absurd h hne, fun h => absurd h.1 he⟩

theorem waitsAt_stop {s u : Strand Q A} (h : Calls s u) {ends : Prop} (he : ¬ ends) :
    WaitsAt s u.stop ends :=
  waitsAt_goto (h.trans (calls_shutdown u)) rfl (by simp) he

theorem runHandler_spec (s : Strand Q A) (c : Coroutine Q A ConnCall Unit) :
    WaitsAt s (s.runHandler c) (c.segment.2 = .returned ()) := by
  have hcalls := calls_foldl calls_performConn s c.segment.1
  unfold runHandler
  simp only
  split
  · rename_i hend
    exact waitsAt_top hcalls hend
  · rename_i hend
    exact waitsAt_stop hcalls (by rw [hend]; simp)
  · rename_i hend
    exact waitsAt_goto hcalls rfl (by simp) (by rw [hend]; simp)

/-- **`ReadLoop` between two waits.** -/
theorem resumeReadLoop_spec (handlers : Handlers Q A) (s : Strand Q A) (r : Resumption Q A) :
    WaitsAt s (s.resumeReadLoop handlers r) (EndsIteration handlers s.writer.session r) := by
  cases r with
  | start => exact waitsAt_top (.refl s) trivial
  | woken => exact waitsAt_goto (.refl s) rfl (by simp) id
  | header bytes =>
    cases bytes with
    | none => exact waitsAt_stop (.refl s) id
    | some bytes =>
      have hcalls := calls_onHeader s (TCPHeaderConv.ofBytes bytes)
      simp only [resumeReadLoop, EndsIteration]
      split
      · rename_i hact
        exact waitsAt_stop hcalls (by rw [hact]; simp)
      · rename_i hact
        exact waitsAt_top (hcalls.trans (calls_post _ _)) (Or.inl hact)
      · rename_i hact
        exact waitsAt_top hcalls (Or.inr hact)
      · rename_i hact
        exact waitsAt_goto hcalls rfl (by simp) (by rw [hact]; simp)
  | body t v bytes =>
    cases bytes with
    | none => exact waitsAt_stop (.refl s) id
    | some bytes => exact runHandler_spec s _
  | answered rest => exact runHandler_spec s rest

/-- **`Heartbeat` between two waits.** -/
theorem resumeHeartbeat_spec (s : Strand Q A) (idle : Nat) (r : HbResumption) :
    ∃ u p, Calls s u ∧ s.resumeHeartbeat idle r = { u with hbPos := p } := by
  have hcall : ∀ (s : Strand Q A) c, Calls s (s.performHb c) := by
    intro s c
    cases c with
    | sendPing => exact calls_post s _
    | shutdown => exact calls_shutdown s
  exact ⟨_, _, calls_foldl hcall s _, rfl⟩

/-! ## What the write path's calls do -/

/-- Cancelling the wait turns it into a resumption in the queue. -/
theorem cancelResumeRead_spec (s : Strand Q A) :
    s.cancelResumeRead.writer = s.writer ∧ s.cancelResumeRead.cleanups = s.cleanups ∧
      s.cancelResumeRead.queue.count .readLoop + s.readPos.tokens =
        s.queue.count .readLoop + s.cancelResumeRead.readPos.tokens ∧
      s.cancelResumeRead.owed = s.owed ∧ s.cancelResumeRead.cleanedUp = s.cleanedUp ∧
      s.cancelResumeRead.readPos ≠ .resumeWait := by
  unfold cancelResumeRead
  split
  · rename_i hp
    refine ⟨rfl, ?_, ?_, rfl, rfl, by simp [post, goto]⟩
    · simp [cleanups, post, goto]
    · rw [hp, count_post]
      rfl
  · rename_i hp
    exact ⟨rfl, rfl, rfl, rfl, rfl, hp⟩

theorem cancelHbTimer_spec (s : Strand Q A) :
    s.cancelHbTimer.writer = s.writer ∧ s.cancelHbTimer.cleanups = s.cleanups ∧
      s.cancelHbTimer.queue.count .readLoop = s.queue.count .readLoop ∧
      s.cancelHbTimer.readPos = s.readPos ∧ s.cancelHbTimer.cleanedUp = s.cleanedUp := by
  unfold cancelHbTimer
  split
  · refine ⟨rfl, ?_, ?_, rfl, rfl⟩
    · simp [cleanups, post]
    · simp [post]
  · exact ⟨rfl, rfl, rfl, rfl, rfl⟩

/-- The calls of the write path post their cleanups and end the wait they cancel. -/
theorem foldl_perform_spec : ∀ (calls : List AsioCall) (s : Strand Q A),
    (calls.foldl perform s).writer = s.writer ∧
      (calls.foldl perform s).cleanups = s.cleanups + calls.count .postCleanup ∧
      (calls.foldl perform s).queue.count .readLoop + s.readPos.tokens =
        s.queue.count .readLoop + (calls.foldl perform s).readPos.tokens ∧
      (calls.foldl perform s).owed = s.owed ∧ (calls.foldl perform s).cleanedUp = s.cleanedUp ∧
      ((calls.foldl perform s).readPos = .resumeWait →
        s.readPos = .resumeWait ∧ AsioCall.cancelResumeRead ∉ calls)
  | [], s => ⟨rfl, rfl, rfl, rfl, rfl, fun h => ⟨h, by simp⟩⟩
  | c :: calls, s => by
    obtain ⟨hw, hc, hr, ho, hu, hp⟩ := foldl_perform_spec calls (s.perform c)
    rw [List.foldl_cons]
    cases c with
    | asyncWrite b =>
      refine ⟨hw, ?_, hr, ho, hu, fun h => ⟨(hp h).1, ?_⟩⟩
      · rw [hc]
        simp [perform]
      · simp [(hp h).2]
    | cancelResumeRead =>
      obtain ⟨hw', hc', hr', ho', hu', hp'⟩ := cancelResumeRead_spec s
      simp only [perform] at hw hc hr ho hu hp ⊢
      refine ⟨hw.trans hw', ?_, by omega, ho.trans ho', hu.trans hu', fun h => absurd (hp h).1 hp'⟩
      rw [hc, hc']
      simp
    | postCleanup =>
      simp only [perform] at hw hc hr ho hu hp ⊢
      have hcount : (s.post .cleanup).cleanups = s.cleanups + 1 := by
        simp [cleanups, post]
        omega
      refine ⟨hw, ?_, ?_, ho, hu, fun h => ⟨(hp h).1, ?_⟩⟩
      · rw [hc, hcount]
        simp
        omega
      · rw [count_post] at hr
        exact hr
      · simp [(hp h).2]

theorem callWriter_some {s t : Strand Q A} {act : WriterAct} (h : s.callWriter act = some t) :
    ∃ w calls, s.writer.call act = some (w, calls) ∧
      t = calls.foldl perform { s with writer := w } := by
  obtain ⟨⟨w, calls⟩, hcall, rfl⟩ := Option.map_eq_some_iff.mp h
  exact ⟨w, calls, hcall, rfl⟩

theorem callWriter_writer {s t : Strand Q A} {act : WriterAct} (h : s.callWriter act = some t) :
    s.writer.step act = some t.writer := by
  obtain ⟨w, calls, hcall, rfl⟩ := callWriter_some h
  rw [(foldl_perform_spec calls _).1, Writer.step, hcall]
  rfl

/-! ## What a step can do -/

/-- From `s` to `t` by anything but `ReadLoop` and the cleanup. -/
structure Keeps (s t : Strand Q A) : Prop where
  writer : Runs.Reaches Writer.step s.writer t.writer
  cleanups : t.cleanups + s.isClosed.toNat = s.cleanups + t.isClosed.toNat
  reader : t.queue.count .readLoop + s.readPos.tokens = s.queue.count .readLoop + t.readPos.tokens
  cleanedUp : t.cleanedUp = s.cleanedUp
  waiting : t.readPos = .resumeWait →
    s.readPos = .resumeWait ∧ (s.backpressure = true → t.backpressure = true)

theorem Keeps.trans {s t u : Strand Q A} (h : Keeps s t) (h' : Keeps t u) : Keeps s u := by
  have hc := h.cleanups
  have hc' := h'.cleanups
  have hr := h.reader
  have hr' := h'.reader
  refine ⟨h.writer.trans h'.writer, by omega, by omega, h'.cleanedUp.trans h.cleanedUp,
    fun hp => ?_⟩
  obtain ⟨hp', hb'⟩ := h'.waiting hp
  obtain ⟨hp, hb⟩ := h.waiting hp'
  exact ⟨hp, fun hs => hb' (hb hs)⟩

theorem Calls.keeps {s t : Strand Q A} (h : Calls s t) : Keeps s t := by
  refine ⟨h.writer, h.cleanups, ?_, h.cleanedUp, fun hp => ⟨?_, fun hb => ?_⟩⟩
  · rw [h.reader, h.readPos]
  · rw [← h.readPos]
    exact hp
  · rw [h.backpressure]
    exact hb

theorem keeps_take {s : Strand Q A} {i : Nat} {task : Task} (h : s.queue[i]? = some task)
    (hc : task ≠ .cleanup) (hr : task ≠ .readLoop) : Keeps s (s.take i) := by
  have hclean := count_take h .cleanup
  have hread := count_take h .readLoop
  rw [if_neg hc] at hclean
  rw [if_neg hr] at hread
  refine ⟨.refl _, ?_, ?_, rfl, fun hp => ⟨hp, id⟩⟩
  · simp only [Strand.cleanups, hclean]
    rfl
  · rw [hread]
    rfl

/-- A task that `Heartbeat` or an event posts. -/
theorem keeps_post (s : Strand Q A) {task : Task} (hc : task ≠ .cleanup) (hr : task ≠ .readLoop) :
    Keeps s (s.post task) := by
  refine ⟨.refl _, ?_, ?_, rfl, fun hp => ⟨hp, id⟩⟩
  · simp only [Strand.cleanups, count_post, if_neg hc]
    rfl
  · rw [count_post, if_neg hr]
    rfl

theorem keeps_setHb (s : Strand Q A) (p : HbPos) : Keeps s { s with hbPos := p } :=
  ⟨.refl _, rfl, rfl, rfl, fun hp => ⟨hp, id⟩⟩

/-- A completion resumes `ReadLoop` from one of its reads, or from the wait for its handler. -/
theorem keeps_resume {s t : Strand Q A} (hw : t.writer = s.writer) (hq : t.queue = s.queue)
    (ho : t.owed = s.owed) (hu : t.cleanedUp = s.cleanedUp) (hp : s.readPos.tokens = 0)
    (r : Resumption Q A) : Keeps s ((t.goto (.scheduled r)).post .readLoop) := by
  refine ⟨?_, ?_, ?_, hu, fun h => ?_⟩
  · rw [show ((t.goto (.scheduled r)).post .readLoop).writer = s.writer from hw]
    exact .refl _
  · simp [Strand.cleanups, post, goto, hq, ho, hu, hw, isClosed]
  · rw [count_post, hp]
    simp [goto, hq, post, ReadPos.tokens]
  · cases h

theorem keeps_readDone {s t : Strand Q A} {n : Nat} {live ok : Bool}
    {r : Option Bytes → Resumption Q A} (hp : s.readPos.tokens = 0)
    (h : s.readDone n live ok r = some t) : Keeps s t := by
  rcases readDone_cases h with ⟨got, rest, _, _, rfl⟩ | rfl
  · exact keeps_resume (s := s) (t := { s with input := rest }) rfl rfl rfl rfl hp _
  · exact keeps_resume rfl rfl rfl rfl hp _

theorem keeps_sendFrame {handlers : Handlers Q A} {s t : Strand Q A} {a : SendArgs} {raced : Bool}
    {idle : Nat} (hs : s.writer.session.pendingBytes ≤ sizeMax)
    (hopen : s.isClosed = false → s.owed = false)
    (h : s.runTask handlers raced idle (.sendFrame a) = some t) : Keeps s t := by
  simp only [runTask] at h
  obtain ⟨u, hu, rfl⟩ := Option.map_eq_some_iff.mp h
  have hwriter := callWriter_writer hu
  obtain ⟨w, calls, hcall, rfl⟩ := callWriter_some hu
  obtain ⟨hw, hc, hr, ho, hup, hp⟩ := foldl_perform_spec calls { s with writer := w }
  obtain ⟨hsess, rfl⟩ := Writer.call_sendFrame hcall
  obtain ⟨hpost, hback, _⟩ := TCPSession.sendFrame_calls a raced hs
  rw [← hsess] at hpost hback
  refine ⟨.single hwriter, ?_, hr, hup, fun h => ⟨(hp h).1, ?_⟩⟩
  · -- a race on an open session is another thread's cleanup that is owed from now on
    have howed : (s.owed || (raced && !s.isClosed)).toNat =
        s.owed.toNat + (raced && !s.isClosed).toNat := by
      cases hcl : s.isClosed with
      | true => simp
      | false => simp [hopen hcl]
    simp only [Strand.cleanups, isClosed, hw, ho] at hc howed ⊢
    omega
  · simp only [backpressure, hw]
    exact hback

theorem keeps_writeDone {s t : Strand Q A} {b : Batch} {ec : Bool}
    (h : s.callWriter (.writeDone b ec) = some t) : Keeps s t := by
  have hwriter := callWriter_writer h
  obtain ⟨w, calls, hcall, rfl⟩ := callWriter_some h
  obtain ⟨hw, hc, hr, _, hup, hp⟩ := foldl_perform_spec calls { s with writer := w }
  obtain ⟨hsess, rfl⟩ := Writer.call_writeDone hcall
  obtain ⟨hpost, hback⟩ := TCPSession.writeDone_calls b ec s.writer.session
  rw [← hsess] at hpost hback
  refine ⟨.single hwriter, ?_, hr, hup, fun h => ⟨(hp h).1, fun hb => ?_⟩⟩
  · simp only [Strand.cleanups, isClosed, hw] at hc ⊢
    omega
  · simp only [backpressure, hw]
    exact (hback hb).resolve_right (hp h).2

/-! ## The invariant -/

structure SessionInv (s : Strand Q A) : Prop where
  writer : WriterInv s.writer
  cleanup : s.cleanups = s.isClosed.toNat
  reader : s.queue.count .readLoop = s.readPos.tokens
  waiting : s.readPos = .resumeWait → s.isClosed = false → s.backpressure = true

theorem sessionInv_init (input : Bytes) : SessionInv (init input : Strand Q A) :=
  ⟨writerInv_init, rfl, rfl, fun h => by cases h⟩

theorem SessionInv.open_owed {s : Strand Q A} (h : SessionInv s) (ho : s.isClosed = false) :
    s.owed = false := by
  have := h.cleanup
  rw [ho] at this
  cases hs : s.owed with
  | false => rfl
  | true =>
    simp only [cleanups, hs, Bool.toNat_true, Bool.toNat_false] at this
    omega

/-- **A step** resumes `ReadLoop`, runs the cleanup, or keeps both as they are. -/
theorem step_cases {handlers : Handlers Q A} {repo : Nat → Q → A} {s t : Strand Q A}
    {act : StrandAct} (hinv : SessionInv s) (h : s.step handlers repo act = some t) :
    ((∀ i raced idle, act = .run i raced idle → s.queue[i]? ≠ some .readLoop) ∧ Keeps s t) ∨
    (∃ i raced idle, act = .run i raced idle ∧ s.queue[i]? = some .cleanup ∧
      t = (s.take i).cleanup) ∨
    (∃ i raced idle r, act = .run i raced idle ∧ s.queue[i]? = some .readLoop ∧
      s.readPos = .scheduled r ∧ t = (s.take i).resumeReadLoop handlers r ∧
      WaitsAt (s.take i) t (EndsIteration handlers s.writer.session r)) := by
  -- a task of another kind, and an event
  have hother : ∀ {i raced idle task}, s.queue[i]? = some task → task ≠ .readLoop →
      task ≠ .cleanup → Keeps (s.take i) t →
      (∀ i' raced' idle', StrandAct.run i raced idle = .run i' raced' idle' →
        s.queue[i']? ≠ some .readLoop) ∧ Keeps s t := by
    intro i raced idle task htask hr hc hk
    refine ⟨fun i' raced' idle' he => ?_, (keeps_take htask hc hr).trans hk⟩
    cases he
    rw [htask]
    simpa using hr
  cases fires_of_step h with
  | sendFrame htask hrun =>
    exact Or.inl (hother htask (by simp) (by simp)
      (keeps_sendFrame hinv.writer.accounting.bounded hinv.open_owed hrun))
  | written htask hrun => exact Or.inl (hother htask (by simp) (by simp) (keeps_writeDone hrun))
  | cleanup htask => exact Or.inr (Or.inl ⟨_, _, _, rfl, htask, rfl⟩)
  | readLoop htask hr =>
    exact Or.inr (Or.inr ⟨_, _, _, _, rfl, htask, hr, rfl, resumeReadLoop_spec _ _ _⟩)
  | @heartbeat i _ idle r htask _ =>
    obtain ⟨u, p, hcalls, hu⟩ := resumeHeartbeat_spec (s.take i) idle r
    refine Or.inl (hother htask (by simp) (by simp) ?_)
    rw [hu]
    exact hcalls.keeps.trans (keeps_setHb u p)
  | headerDone hp hread =>
    exact Or.inl ⟨fun _ _ _ h => (nomatch h), keeps_readDone (by rw [hp]; rfl) hread⟩
  | bodyDone hp hread =>
    exact Or.inl ⟨fun _ _ _ h => (nomatch h), keeps_readDone (by rw [hp]; rfl) hread⟩
  | writeDone => exact Or.inl ⟨fun _ _ _ h => (nomatch h), keeps_post s (by simp) (by simp)⟩
  | hbExpires =>
    exact Or.inl ⟨fun _ _ _ h => (nomatch h),
      (keeps_setHb s _).trans (keeps_post _ (by simp) (by simp))⟩
  | answer hp =>
    exact Or.inl ⟨fun _ _ _ h => (nomatch h), keeps_resume (s := s)
      (t := { s with asked := s.asked + 1 }) rfl rfl rfl rfl (by rw [hp]; rfl) _⟩
  | send => exact Or.inl ⟨fun _ _ _ h => (nomatch h), keeps_post s (by simp) (by simp)⟩
  | closeFlag hc =>
    have howed := hinv.open_owed hc
    refine Or.inl ⟨fun _ _ _ h => (nomatch h), .single (a := .shutdown) ?_, ?_, rfl, rfl,
      fun hp => ⟨hp, id⟩⟩
    · rw [writer_shutdown, shutdown_open hc]
      rfl
    · simp only [cleanups, howed, hc, setSession, isClosed]
      simp
      omega
  | closePost ho =>
    refine Or.inl ⟨fun _ _ _ h => (nomatch h), .refl _, ?_, ?_, rfl, fun hp => ⟨hp, id⟩⟩
    · simp only [cleanups, count_post, ho]
      simp [post]
      omega
    · simp [post]

/-- A run of the write path from a closed session ends closed. -/
theorem closed_of_reaches {w w' : Writer} (hinv : WriterInv w)
    (h : Runs.Reaches Writer.step w w') (hc : w.session.isClosed = true) :
    w'.session.isClosed = true :=
  (h.invariant (I := fun v : Writer => WriterInv v ∧ v.session.isClosed = true)
    (fun v act v' hv hstep => ⟨writerInv_step v act v' hv.1 hstep,
      (closed_step v act v' hv.2 hv.1.accounting.bounded hstep).1⟩) ⟨hinv, hc⟩).2

theorem open_of_reaches {w w' : Writer} (hinv : WriterInv w)
    (h : Runs.Reaches Writer.step w w') (ho : w'.session.isClosed = false) :
    w.session.isClosed = false := by
  cases hc : w.session.isClosed with
  | false => rfl
  | true =>
    rw [closed_of_reaches hinv h hc] at ho
    cases ho

/-- The cleanup ends the wait. -/
theorem cleanup_spec (s : Strand Q A) :
    s.cleanup.writer = s.writer ∧
      s.cleanup.cleanups + s.cleanedUp.toNat = s.cleanups + 1 ∧
      s.cleanup.queue.count .readLoop + s.readPos.tokens =
        s.queue.count .readLoop + s.cleanup.readPos.tokens ∧
      s.cleanup.readPos ≠ .resumeWait := by
  obtain ⟨hw, hc, hr, hp, hu⟩ := cancelHbTimer_spec s
  obtain ⟨hw', hc', hr', _, hu', hp'⟩ := cancelResumeRead_spec s.cancelHbTimer
  refine ⟨hw'.trans hw, ?_, ?_, hp'⟩
  · simp only [cleanups, cleanup, Bool.toNat_true] at hc hc' hu hu' ⊢
    rw [hu', hu] at hc'
    rw [hu] at hc
    omega
  · rw [hp, hr] at hr'
    exact hr'

/-- **A step of the session is a run of the write path.** -/
theorem writer_step (handlers : Handlers Q A) (repo : Nat → Q → A) (s : Strand Q A)
    (act : StrandAct) (t : Strand Q A) (hinv : SessionInv s)
    (h : s.step handlers repo act = some t) : Runs.Reaches Writer.step s.writer t.writer := by
  rcases step_cases hinv h with ⟨_, hk⟩ | ⟨i, _, _, _, _, rfl⟩ |
    ⟨i, _, _, r, _, _, _, _, u, p, hcalls, rfl, _⟩
  · exact hk.writer
  · rw [(cleanup_spec _).1]
    exact .refl _
  · exact hcalls.writer

theorem sessionInv_step (handlers : Handlers Q A) (repo : Nat → Q → A) (s : Strand Q A)
    (act : StrandAct) (t : Strand Q A) (hinv : SessionInv s)
    (h : s.step handlers repo act = some t) : SessionInv t := by
  have hreach := writer_step handlers repo s act t hinv h
  have hwriter : WriterInv t.writer := hreach.invariant writerInv_step hinv.writer
  have hclean := hinv.cleanup
  have hread := hinv.reader
  rcases step_cases hinv h with ⟨_, hk⟩ | ⟨i, _, _, _, hi, rfl⟩ |
    ⟨i, _, _, r, _, hi, hr, _, u, p, hcalls, rfl, htok, hwait⟩
  · have hc := hk.cleanups
    have hr := hk.reader
    refine ⟨hwriter, by omega, by omega, fun hp ho => ?_⟩
    obtain ⟨hp, hb⟩ := hk.waiting hp
    exact hb (hinv.waiting hp (open_of_reaches hinv.writer hreach ho))
  · -- the cleanup in the queue was the only one, and has not run before
    obtain ⟨hw, hc, hr, hp⟩ := cleanup_spec (s.take i)
    have htake := count_take hi .cleanup
    have htake' := count_take hi .readLoop
    rw [if_pos rfl] at htake
    rw [if_neg (by simp)] at htake'
    have hle := Bool.toNat_le s.isClosed
    have hcl : (s.take i).cleanup.isClosed = s.isClosed := by rw [isClosed, hw]; rfl
    refine ⟨hwriter, ?_, ?_, fun h => absurd h hp⟩
    · rw [hcl]
      simp only [cleanups, take] at hc hclean htake ⊢
      omega
    · simp only [take] at hr htake' hread ⊢
      omega
  · have hc := hcalls.cleanups
    have hr' := hcalls.reader
    have htake := count_take hi .cleanup
    have htake' := count_take hi .readLoop
    rw [if_neg (by simp)] at htake
    rw [if_pos rfl] at htake'
    rw [hr] at hread
    refine ⟨hwriter, ?_, ?_, fun hp _ => ?_⟩
    · show u.cleanups = u.isClosed.toNat
      simp only [cleanups, take, isClosed] at hc hclean htake ⊢
      omega
    · show u.queue.count .readLoop = p.tokens
      simp only [ReadPos.tokens] at hread
      omega
    · show u.backpressure = true
      rw [hcalls.backpressure]
      exact (hwait.mp hp).2

theorem sessionInv_run {handlers : Handlers Q A} {repo : Nat → Q → A} {input : Bytes}
    {acts : List StrandAct} {s : Strand Q A}
    (h : Runs.exec (step handlers repo) (init input) acts = some s) : SessionInv s :=
  Runs.exec_invariant (sessionInv_step handlers repo) (sessionInv_init input) h

/-- **Refinement**: a run of the session is a run of the write path. -/
theorem writer_run {handlers : Handlers Q A} {repo : Nat → Q → A} {input : Bytes}
    {acts : List StrandAct} {s : Strand Q A}
    (h : Runs.exec (step handlers repo) (init input) acts = some s) :
    Runs.Reaches Writer.step .init s.writer :=
  Runs.exec_simulation (f := Strand.writer) (sessionInv_step handlers repo)
    (writer_step handlers repo) (sessionInv_init input) h

/-- What holds of every run of the write path holds of the session's. -/
theorem writePath_run {handlers : Handlers Q A} {repo : Nat → Q → A} {input : Bytes}
    {acts : List StrandAct} {s : Strand Q A}
    (h : Runs.exec (step handlers repo) (init input) acts = some s) :
    WriterInv s.writer ∧ StreamInv s.writer :=
  (writer_run h).invariant streamInv_step ⟨writerInv_init, streamInv_init⟩

end Strand

end Zem
