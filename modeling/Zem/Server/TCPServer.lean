import Mathlib.Logic.Function.Basic
import Zem.Server.Stopping
import Zem.Session.Emission

/-!
# The server with its sessions

All the strands of the process: the listening side of `Base/Server.hpp` and the sessions that
`OnAccept` starts, which run on threads of their own.  A session begins with `StartHandling`, is
shut down where the task of `Stop` visits it, and lets go of itself once nothing holds it any more.

* `Strand.isReferenced` — what holds a session.
* `TCPServer.step` — a step of the listening side, of a session, or of both; `Takes`,
  `takes_of_step`.
* `TCPServerInv`, `tcpServerInv_step`, `tcpServerInv_run` — what each side knows of the other.
* `session_run` — a session of the server runs as a session on its own.
* `sessions_isolated` — so what it answers does not depend on the other sessions.
* `released_untouched` — a session that nothing holds is never run, written or visited again.
-/

set_option autoImplicit false

namespace Zem

/-! ## Sessions -/

def ReadPos.isRunning {Q A : Type} : ReadPos Q A → Bool
  | .finished => false
  | .scheduled _ | .resumeWait | .headerRead _ | .bodyRead _ _ _ _ | .handlerWait _ _ => true

namespace Strand

variable {Q A : Type}

/-- A task, a write, a thread in `Shutdown` or a coroutine has a shared pointer to the session. -/
def isReferenced (v : Strand Q A) : Bool :=
  !v.queue.isEmpty || !v.writer.outstanding.isEmpty || v.owed || v.readPos.isRunning ||
    v.hbPos != .finished

/-- `m_is_closed.exchange(true)` in the `Shutdown` of another thread. -/
def beginShutdown (v : Strand Q A) : Strand Q A :=
  if v.isClosed then v
  else { v.setSession { v.writer.session with isClosed := true } with owed := true }

end Strand

/-- The steps in which no other thread takes part. -/
def StrandAct.isAlone : StrandAct → Bool
  | .run _ raced _ => !raced
  | .send _ | .closeFlag => false
  | .readDone _ | .writeDone _ _ | .hbExpires | .answer | .closePost => true

/-! ## State -/

/-- `signalWait` is the `async_wait` for SIGINT and SIGTERM. -/
structure TCPServer (Q A : Type) where
  server : Server
  sessions : Nat → Option (Strand Q A)
  signalWait : Bool

/-- `visitDuring` is a visit of `Stop` in the middle of the session's `SendFrame`. -/
inductive TCPServerAct where
  | server (act : ServerAct)
  | session (id : Nat) (act : StrandAct)
  | visitDuring (id i idle : Nat)
  | signal
  deriving DecidableEq, Repr

/-- The session of which a task runs in the step. -/
def TCPServerAct.strand : TCPServerAct → Option Nat
  | .session id act => if act.isRun then some id else none
  | .visitDuring id _ _ => some id
  | .server _ | .signal => none

/-- `Stop` up to the task that it posts. -/
def Server.beginStop (s : Server) : Server :=
  if s.isStopped then s else { s with isStopped := true, owed := true }

namespace TCPServer

variable {Q A : Type}

def init : TCPServer Q A :=
  { server := .init
    sessions := fun _ => none
    signalWait := true }

/-! ## Steps -/

/-- `StartHandling` of the session that is registered from `s` to `t`, if there is one. -/
def startHandling (inputs : Nat → Bytes) (s t : Server) (sessions : Nat → Option (Strand Q A)) :
    Nat → Option (Strand Q A) := fun id =>
  if id ∈ t.registered ∧ id ∉ s.registered then some (.init (inputs id)) else sessions id

/-- `session->Shutdown()` on the strand of the listening side. -/
def visit (s : TCPServer Q A) (id : Nat) : Nat → Option (Strand Q A) :=
  if id ∈ s.server.live then
    Function.update s.sessions id ((s.sessions id).map Strand.beginShutdown)
  else s.sessions

/-- A step of the listening side, of a session, or of both.  `inputs id` is what the client of
    session `id` sends, and `repo id` answers its questions.  `StartHandling` does not throw, and
    only the task of `Stop` shuts a session down from outside. -/
def step (handlers : Handlers Q A) (repo : Nat → Nat → Q → A) (inputs : Nat → Bytes)
    (s : TCPServer Q A) : TCPServerAct → Option (TCPServer Q A)
  | .server (.run i raced fault) =>
    if fault = some .startHandling then none
    else (s.server.step (.run i raced fault)).map fun t =>
      { s with server := t, sessions := startHandling inputs s.server t s.sessions }
  | .server (.stopVisit id) =>
    (s.server.step (.stopVisit id)).map fun t => { s with server := t, sessions := s.visit id }
  | .server (.release id) =>
    if (s.sessions id).any Strand.isReferenced then none
    else (s.server.step (.release id)).map fun t => { s with server := t }
  | .server act => (s.server.step act).map fun t => { s with server := t }
  | .session id act =>
    if act.isAlone then
      (s.sessions id).bind fun v => (v.step handlers (repo id) act).map fun w =>
        { s with sessions := Function.update s.sessions id (some w) }
    else none
  | .visitDuring id i idle =>
    (s.sessions id).bind fun v =>
      if id ∈ s.server.live ∧ v.isClosed = false ∧ (v.queue[i]?).any Strand.isSendFrame then
        (s.server.step (.stopVisit id)).bind fun t =>
          (v.step handlers (repo id) (.run i true idle)).map fun w =>
            { s with server := t, sessions := Function.update s.sessions id (some w) }
      else none
  | .signal =>
    if s.signalWait then some { s with server := s.server.beginStop, signalWait := false }
    else none

/-- The steps that are taken, with what enables each of them. -/
inductive Takes (handlers : Handlers Q A) (repo : Nat → Nat → Q → A) (inputs : Nat → Bytes)
    (s : TCPServer Q A) : TCPServerAct → TCPServer Q A → Prop where
  | run {i : Nat} {raced : Bool} {fault : Option AcceptFault} {t : Server}
      (starts : fault ≠ some .startHandling) (runs : s.server.step (.run i raced fault) = some t) :
      Takes handlers repo inputs s (.server (.run i raced fault))
        { s with server := t, sessions := startHandling inputs s.server t s.sessions }
  | visit {id : Nat} {t : Server} (visits : s.server.step (.stopVisit id) = some t) :
      Takes handlers repo inputs s (.server (.stopVisit id))
        { s with server := t, sessions := s.visit id }
  | release {id : Nat} {t : Server}
      (free : ∀ v, s.sessions id = some v → v.isReferenced = false)
      (releases : s.server.step (.release id) = some t) :
      Takes handlers repo inputs s (.server (.release id)) { s with server := t }
  | server {act : ServerAct} {t : Server} (noRun : ∀ i raced fault, act ≠ .run i raced fault)
      (noVisit : ∀ id, act ≠ .stopVisit id) (noRelease : ∀ id, act ≠ .release id)
      (steps : s.server.step act = some t) :
      Takes handlers repo inputs s (.server act) { s with server := t }
  | session {id : Nat} {act : StrandAct} {v w : Strand Q A} (alone : act.isAlone = true)
      (begun : s.sessions id = some v) (steps : v.step handlers (repo id) act = some w) :
      Takes handlers repo inputs s (.session id act)
        { s with sessions := Function.update s.sessions id (some w) }
  | visitDuring {id i idle : Nat} {v w : Strand Q A} {t : Server} (begun : s.sessions id = some v)
      (live : id ∈ s.server.live) (opened : v.isClosed = false)
      (sending : (v.queue[i]?).any Strand.isSendFrame = true)
      (visits : s.server.step (.stopVisit id) = some t)
      (steps : v.step handlers (repo id) (.run i true idle) = some w) :
      Takes handlers repo inputs s (.visitDuring id i idle)
        { s with server := t, sessions := Function.update s.sessions id (some w) }
  | signal (waits : s.signalWait = true) :
      Takes handlers repo inputs s .signal
        { s with server := s.server.beginStop, signalWait := false }

theorem takes_of_step {handlers : Handlers Q A} {repo : Nat → Nat → Q → A} {inputs : Nat → Bytes}
    {s t : TCPServer Q A} {act : TCPServerAct} (h : step handlers repo inputs s act = some t) :
    Takes handlers repo inputs s act t := by
  cases act with
  | server act =>
    cases act with
    | run i raced fault =>
      simp only [step] at h
      split at h
      · cases h
      · rename_i hfault
        obtain ⟨t', ht, rfl⟩ := Option.map_eq_some_iff.mp h
        exact .run hfault ht
    | stopVisit id =>
      obtain ⟨t', ht, rfl⟩ := Option.map_eq_some_iff.mp h
      exact .visit ht
    | release id =>
      simp only [step] at h
      split at h
      · cases h
      · rename_i hfree
        obtain ⟨t', ht, rfl⟩ := Option.map_eq_some_iff.mp h
        refine .release (fun v hv => ?_) ht
        rw [hv] at hfree
        simpa using hfree
    | stopFinish | acceptDone | timerFires | stopFlag | stopPost =>
      obtain ⟨t', ht, rfl⟩ := Option.map_eq_some_iff.mp h
      exact .server (by simp) (by simp) (by simp) ht
  | session id act =>
    simp only [step] at h
    split at h
    · rename_i halone
      obtain ⟨v, hv, h⟩ := Option.bind_eq_some_iff.mp h
      obtain ⟨w, hw, rfl⟩ := Option.map_eq_some_iff.mp h
      exact .session halone hv hw
    · cases h
  | visitDuring id i idle =>
    simp only [step] at h
    obtain ⟨v, hv, h⟩ := Option.bind_eq_some_iff.mp h
    split at h
    · rename_i hok
      obtain ⟨t', ht, h⟩ := Option.bind_eq_some_iff.mp h
      obtain ⟨w, hw, rfl⟩ := Option.map_eq_some_iff.mp h
      exact .visitDuring hv hok.1 hok.2.1 hok.2.2 ht hw
    · cases h
  | signal =>
    simp only [step] at h
    split at h
    · rename_i hwait
      cases h
      exact .signal hwait
    · cases h

end TCPServer

/-! ## A session that nothing holds -/

namespace Strand

variable {Q A : Type} {handlers : Handlers Q A} {repo : Nat → Q → A}

theorem ReadPos.isRunning_eq_false {p : ReadPos Q A} : p.isRunning = false ↔ p = .finished := by
  cases p <;> simp [ReadPos.isRunning]

theorem isReferenced_eq_false {v : Strand Q A} : v.isReferenced = false ↔
    v.queue = [] ∧ v.writer.outstanding = [] ∧ v.owed = false ∧ v.readPos = .finished ∧
      v.hbPos = .finished := by
  simp [isReferenced, ReadPos.isRunning_eq_false, and_assoc]

/-- **Without references nothing happens to a session.** -/
theorem unreferenced_blocked {v : Strand Q A} (h : v.isReferenced = false) {act : StrandAct}
    (hact : act.isAlone = true) : v.step handlers repo act = none := by
  obtain ⟨hq, ho, howed, hp, hb⟩ := isReferenced_eq_false.mp h
  cases act with
  | run i raced idle => simp [step, hq]
  | readDone ok => simp only [step, hp]
  | writeDone b ec => simp [step, ho]
  | hbExpires => simp only [step, hb]
  | answer => simp only [step, hp]
  | send => cases hact
  | closeFlag => cases hact
  | closePost => simp [step, howed]

theorem beginShutdown_closed {v : Strand Q A} (h : v.isClosed = true) : v.beginShutdown = v := by
  rw [beginShutdown, if_pos h]

theorem beginShutdown_open {v : Strand Q A} (h : v.isClosed = false) :
    v.step handlers repo .closeFlag = some v.beginShutdown := by
  rw [step, beginShutdown, h]
  rfl

theorem isClosed_beginShutdown (v : Strand Q A) : v.beginShutdown.isClosed = true := by
  unfold beginShutdown
  split
  · assumption
  · rfl

theorem liveInv_beginShutdown (handlers : Handlers Q A) (repo : Nat → Q → A) {v : Strand Q A}
    (h : LiveInv v) : LiveInv v.beginShutdown := by
  cases hc : v.isClosed with
  | true =>
    rw [beginShutdown_closed hc]
    exact h
  | false => exact liveInv_step handlers repo v .closeFlag _ h (beginShutdown_open hc)

/-- A `SendFrame` in whose middle another thread shuts the session down. -/
theorem raced_closed {v w : Strand Q A} {i idle : Nat} (hinv : SessionInv v)
    (hsend : (v.queue[i]?).any isSendFrame = true)
    (h : v.step handlers repo (.run i true idle) = some w) : w.isClosed = true := by
  cases htask : v.queue[i]? with
  | none =>
    rw [htask] at hsend
    cases hsend
  | some task =>
    rw [htask] at hsend
    cases task with
    | sendFrame a =>
      simp only [step, htask, runTask] at h
      obtain ⟨u, hu, rfl⟩ := Option.map_eq_some_iff.mp h
      have hw := callWriter_writer hu
      show u.writer.session.isClosed = true
      rcases Writer.sendFrame_step (w := (v.take i).writer) hinv.writer.accounting.bounded hw with
        ⟨hc, heq⟩ | ⟨_, _, _, _, _, heq⟩ | ⟨_, _, _, ⟨_, heq⟩ | ⟨_, hraced, _⟩⟩
      · rw [heq]
        exact hc
      · rw [heq]
      · rw [heq]
        rfl
      · cases hraced
    | writeDone | cleanup | readLoop | heartbeat => cases hsend

end Strand

/-! ## What the listening side does to the sessions -/

namespace Server

theorem startAcceptor_registered (s : Server) :
    s.startAcceptor.registered = s.registered ∧ s.startAcceptor.live = s.live ∧
      s.startAcceptor.shutdowns = s.shutdowns := by
  unfold startAcceptor
  split <;> exact ⟨rfl, rfl, rfl⟩

/-- From `s` to `t` the next session is registered, with its first reference, or none is. -/
structure Registers (s t : Server) : Prop where
  shutdowns : t.shutdowns = s.shutdowns
  next : (t.registered = s.registered ∧ t.live = s.live) ∨
    (t.registered = s.registered ++ [s.nextId] ∧ t.live = s.live ++ [s.nextId])

theorem registers_onAccepted (fault : Option AcceptFault) (s : Server) :
    Registers s (s.onAccepted fault) := by
  unfold onAccepted
  split
  · exact ⟨rfl, Or.inl ⟨rfl, rfl⟩⟩
  simp only
  split
  · exact ⟨rfl, Or.inl ⟨rfl, rfl⟩⟩
  split
  · exact ⟨rfl, Or.inl ⟨rfl, rfl⟩⟩
  split
  · exact ⟨rfl, Or.inr ⟨rfl, rfl⟩⟩
  · have hsame := startAcceptor_registered { s with
      nextId := s.nextId + 1
      live := s.live ++ [s.nextId]
      sessions := s.sessions ++ [s.nextId]
      registered := s.registered ++ [s.nextId] }
    exact ⟨hsame.2.2, Or.inr ⟨hsame.1, hsame.2.1⟩⟩

theorem registers_onAccept (ec raced : Bool) (fault : Option AcceptFault) (s : Server) :
    Registers s (s.onAccept ec raced fault) := by
  have hbody : ∀ u : Server, Registers u
      (if ec then { u with retrying := u.retrying + 1 } else u.onAccepted fault) := by
    intro u
    cases ec with
    | true => exact ⟨rfl, Or.inl ⟨rfl, rfl⟩⟩
    | false => exact registers_onAccepted fault u
  unfold onAccept
  split
  · exact ⟨rfl, Or.inl ⟨rfl, rfl⟩⟩
  cases raced with
  | true =>
    obtain ⟨hshut, hnext⟩ := hbody { s with isStopped := true, owed := true }
    exact ⟨hshut, hnext⟩
  | false => exact hbody s

theorem registers_run {s t : Server} {i : Nat} {raced : Bool} {fault : Option AcceptFault}
    (h : s.step (.run i raced fault) = some t) : Registers s t := by
  obtain ⟨task, _, _, rfl⟩ := run_step h
  cases task with
  | startAcceptor | retry =>
    have hsame := startAcceptor_registered (s.take i)
    exact ⟨hsame.2.2, Or.inl ⟨hsame.1, hsame.2.1⟩⟩
  | stop | erase => exact ⟨rfl, Or.inl ⟨rfl, rfl⟩⟩
  | onAccept ec =>
    obtain ⟨hshut, hnext⟩ := registers_onAccept ec raced fault (s.take i)
    exact ⟨hshut, hnext⟩

theorem serve_registered {s t : Server} {act : ServerAct}
    (hrun : ∀ i raced fault, act ≠ .run i raced fault) (hvisit : ∀ id, act ≠ .stopVisit id)
    (hrelease : ∀ id, act ≠ .release id) (h : s.step act = some t) :
    t.registered = s.registered ∧ t.live = s.live ∧ t.shutdowns = s.shutdowns := by
  cases act with
  | run => exact absurd rfl (hrun _ _ _)
  | stopVisit => exact absurd rfl (hvisit _)
  | release => exact absurd rfl (hrelease _)
  | stopFinish =>
    obtain ⟨_, rfl⟩ := stopFinish_step h
    exact ⟨rfl, rfl, rfl⟩
  | acceptDone | timerFires | stopFlag | stopPost =>
    simp only [step] at h
    split at h <;> cases h
    exact ⟨rfl, rfl, rfl⟩

theorem release_step {s t : Server} {id : Nat} (h : s.step (.release id) = some t) :
    id ∈ s.live ∧ t.registered = s.registered ∧ t.live = s.live.erase id ∧
      t.shutdowns = s.shutdowns := by
  simp only [step] at h
  split at h
  · rename_i hid
    cases h
    exact ⟨hid, rfl, rfl, rfl⟩
  · cases h

theorem beginStop_eq (s : Server) :
    s.beginStop = s ∨ s.step .stopFlag = some s.beginStop := by
  unfold beginStop
  cases hs : s.isStopped with
  | true => exact Or.inl rfl
  | false =>
    refine Or.inr ?_
    simp [step, hs]

end Server

namespace TCPServer

variable {Q A : Type} {handlers : Handlers Q A} {repo : Nat → Nat → Q → A} {inputs : Nat → Bytes}

/-- `StartHandling` starts the next session, or there is none to start. -/
theorem startHandling_cases (inputs : Nat → Bytes) {s t : Server} (h : Server.Registers s t)
    (hnew : s.nextId ∉ s.registered) (sessions : Nat → Option (Strand Q A)) :
    (t.registered = s.registered ∧ t.live = s.live ∧
      startHandling inputs s t sessions = sessions) ∨
    (t.registered = s.registered ++ [s.nextId] ∧ t.live = s.live ++ [s.nextId] ∧
      startHandling inputs s t sessions =
        Function.update sessions s.nextId (some (.init (inputs s.nextId)))) := by
  refine h.next.imp (fun ⟨hreg, hlive⟩ => ⟨hreg, hlive, ?_⟩) fun ⟨hreg, hlive⟩ =>
    ⟨hreg, hlive, ?_⟩
  · funext id
    rw [startHandling, if_neg fun hid => hid.2 (hreg ▸ hid.1)]
  · funext id
    rw [startHandling, hreg, Function.update_apply]
    by_cases heq : id = s.nextId
    · rw [if_pos heq, if_pos, heq]
      rw [heq]
      exact ⟨List.mem_append_right _ (List.mem_singleton.mpr rfl), hnew⟩
    · rw [if_neg heq, if_neg]
      rintro ⟨hmem, hnot⟩
      rcases List.mem_append.mp hmem with hmem | hmem
      · exact hnot hmem
      · exact heq (List.mem_singleton.mp hmem)

/-! ## What each side knows of the other -/

structure TCPServerInv (s : TCPServer Q A) : Prop where
  registry : Server.RegInv s.server
  stop : Server.StopInv s.server
  live : ∀ id v, s.sessions id = some v → Strand.LiveInv v
  begun : ∀ id, id ∈ s.server.registered ↔ (s.sessions id).isSome = true
  free : ∀ id v, s.sessions id = some v → id ∉ s.server.live → v.isReferenced = false
  visited : ∀ id ∈ s.server.shutdowns, id ∈ s.server.registered
  shut : ∀ id ∈ s.server.shutdowns, ∀ v, s.sessions id = some v → v.isClosed = true

theorem tcpServerInv_init : TCPServerInv (init : TCPServer Q A) :=
  ⟨Server.regInv_init, Server.stopInv_init, fun _ _ h => (nomatch h), fun id => by
    simp [init, Server.init], fun _ _ h => (nomatch h), fun _ h => (nomatch h),
    fun _ h => (nomatch h)⟩

namespace TCPServerInv

variable {s : TCPServer Q A}

/-- The listening side steps, and one session is started, or steps. -/
theorem update (h : TCPServerInv s) {t : Server} {id : Nat} {w : Strand Q A}
    (hreg : Server.RegInv t) (hstop : Server.StopInv t) (hw : Strand.LiveInv w)
    (hbegun : ∀ x, x ∈ t.registered ↔ x ∈ s.server.registered ∨ x = id)
    (hlive : ∀ x, x ≠ id → x ∉ t.live → x ∉ s.server.live)
    (hfree : id ∉ t.live → w.isReferenced = false)
    (hshut : ∀ x ∈ t.shutdowns, x ∈ s.server.shutdowns ∨ x = id)
    (hclosed : id ∈ t.shutdowns → w.isClosed = true) :
    TCPServerInv { s with server := t, sessions := Function.update s.sessions id (some w) } := by
  refine ⟨hreg, hstop, fun x v hv => ?_, fun x => ?_, fun x v hv hx => ?_, fun x hx => ?_,
    fun x hx v hv => ?_⟩
  · simp only [Function.update_apply] at hv
    split at hv
    · cases hv
      exact hw
    · exact h.live x v hv
  · simp only [Function.update_apply]
    rw [hbegun, h.begun]
    split
    · rename_i heq
      simp [heq]
    · rename_i hne
      simp [hne]
  · simp only [Function.update_apply] at hv
    split at hv
    · rename_i heq
      cases hv
      exact hfree (heq ▸ hx)
    · rename_i hne
      exact h.free x v hv (hlive x hne hx)
  · exact (hbegun x).mpr ((hshut x hx).imp_left (h.visited x))
  · simp only [Function.update_apply] at hv
    split at hv
    · rename_i heq
      cases hv
      exact hclosed (heq ▸ hx)
    · rename_i hne
      exact h.shut x ((hshut x hx).resolve_right hne) v hv

/-- The listening side steps, and leaves the sessions alone. -/
theorem serve (h : TCPServerInv s) {t : Server} {waits : Bool} (hreg : Server.RegInv t)
    (hstop : Server.StopInv t) (hsame : t.registered = s.server.registered)
    (hlive : ∀ id v, s.sessions id = some v → id ∉ t.live →
      id ∉ s.server.live ∨ v.isReferenced = false)
    (hshut : t.shutdowns = s.server.shutdowns) :
    TCPServerInv { s with server := t, signalWait := waits } :=
  ⟨hreg, hstop, h.live, fun id => by rw [hsame]; exact h.begun id,
    fun id v hv hid => (hlive id v hv hid).elim (h.free id v hv) fun hf => hf,
    fun id hid => hsame ▸ h.visited id (hshut ▸ hid), fun id hid => h.shut id (hshut ▸ hid)⟩

/-- A live session has been started. -/
theorem started (h : TCPServerInv s) {id : Nat} (hid : id ∈ s.server.live) :
    ∃ v, s.sessions id = some v :=
  Option.isSome_iff_exists.mp ((h.begun id).mp (h.registry.live id hid))

/-- A registered session may step, and so may the listening side, if it shuts down that one. -/
theorem stepSession (h : TCPServerInv s) {t : Server} {id : Nat} {v w : Strand Q A}
    (hv : s.sessions id = some v) (hreg : Server.RegInv t) (hstop : Server.StopInv t)
    (hw : Strand.LiveInv w) (hsame : t.registered = s.server.registered)
    (hlive : t.live = s.server.live) (hfree : id ∉ t.live → w.isReferenced = false)
    (hshut : ∀ x ∈ t.shutdowns, x ∈ s.server.shutdowns ∨ x = id)
    (hclosed : id ∈ t.shutdowns → w.isClosed = true) :
    TCPServerInv { s with server := t, sessions := Function.update s.sessions id (some w) } := by
  refine h.update hreg hstop hw (fun x => ?_) (fun x _ hx => hlive ▸ hx) hfree hshut hclosed
  rw [hsame]
  refine ⟨Or.inl, ?_⟩
  rintro (hx | rfl)
  · exact hx
  · rw [h.begun, hv]
    rfl

end TCPServerInv

/-- What a visit of `Stop` changes on the listening side. -/
theorem stopVisit_same {s t : Server} {id : Nat} (h : s.step (.stopVisit id) = some t) :
    t.registered = s.registered ∧ t.live = s.live ∧
      (∀ x ∈ t.shutdowns, x ∈ s.shutdowns ∨ x = id) ∧
        (id ∉ s.live → t.shutdowns = s.shutdowns) := by
  obtain ⟨rest, _, _, rfl⟩ := Server.stopVisit_step h
  refine ⟨rfl, rfl, fun x hx => ?_, fun hid => if_neg hid⟩
  simp only [Server.stopVisit] at hx
  split at hx
  · rcases List.mem_append.mp hx with hx | hx
    · exact Or.inl hx
    · exact Or.inr (List.mem_singleton.mp hx)
  · exact Or.inl hx

theorem tcpServerInv_step (handlers : Handlers Q A) (repo : Nat → Nat → Q → A)
    (inputs : Nat → Bytes) (s : TCPServer Q A) (act : TCPServerAct) (t : TCPServer Q A)
    (h : TCPServerInv s) (hstep : step handlers repo inputs s act = some t) : TCPServerInv t := by
  have hclosed : ∀ {id : Nat} {v w : Strand Q A} {act : StrandAct}, s.sessions id = some v →
      v.step handlers (repo id) act = some w → v.isClosed = true → w.isClosed = true := by
    intro id v w act hv hw
    have hsess := (h.live id v hv).session
    exact Strand.closed_of_reaches hsess.writer
      (Strand.writer_step handlers (repo id) v act w hsess hw)
  cases takes_of_step hstep with
  | @run i raced fault u hstart hrun =>
    have hreg := Server.regInv_step _ _ _ h.registry hrun
    have hstop := Server.stopInv_step _ _ _ h.registry h.stop hrun
    have hnext := Server.registers_run hrun
    rcases startHandling_cases inputs hnext h.registry.fresh_not_registered
      s.sessions with ⟨hsame, hlive, hsess⟩ | ⟨hnew, hlive, hsess⟩
    · rw [hsess]
      exact h.serve hreg hstop hsame (fun id v _ hid => Or.inl (hlive ▸ hid)) hnext.shutdowns
    · rw [hsess]
      refine h.update hreg hstop (Strand.liveInv_init _) (fun x => ?_) (fun x hx hnot => ?_)
        (fun hnot => ?_) (fun x hx => Or.inl (hnext.shutdowns ▸ hx)) fun hx => ?_
      · rw [hnew, List.mem_append, List.mem_singleton]
      · rw [hlive, List.mem_append, not_or] at hnot
        exact hnot.1
      · rw [hlive] at hnot
        simp at hnot
      · -- a session is shut down once it is registered
        rw [hnext.shutdowns] at hx
        exact absurd (h.visited _ hx) h.registry.fresh_not_registered
  | @visit id u hvisit =>
    have hreg := Server.regInv_step _ _ _ h.registry hvisit
    have hstop := Server.stopInv_step _ _ _ h.registry h.stop hvisit
    obtain ⟨hsame, hlive, hshut, hnone⟩ := stopVisit_same hvisit
    unfold TCPServer.visit
    split
    · rename_i hid
      obtain ⟨v, hv⟩ := h.started hid
      rw [hv, Option.map_some]
      exact h.stepSession hv hreg hstop
        (Strand.liveInv_beginShutdown handlers (repo id) (h.live id v hv)) hsame hlive
        (fun hnot => absurd (hlive ▸ hid) hnot) hshut fun _ => Strand.isClosed_beginShutdown v
    · rename_i hid
      exact h.serve hreg hstop hsame (fun id' v _ hid' => Or.inl (hlive ▸ hid')) (hnone hid)
  | @release id u hfree hrelease =>
    obtain ⟨hid, hsame, hlive, hshut⟩ := Server.release_step hrelease
    refine h.serve (Server.regInv_step _ _ _ h.registry hrelease)
      (Server.stopInv_step _ _ _ h.registry h.stop hrelease) hsame (fun id' v hv hid' => ?_) hshut
    by_cases heq : id' = id
    · exact Or.inr (hfree v (heq ▸ hv))
    · rw [hlive, List.mem_erase_of_ne heq] at hid'
      exact Or.inl hid'
  | server hrun hvisit hrelease hserve =>
    obtain ⟨hsame, hlive, hshut⟩ := Server.serve_registered hrun hvisit hrelease hserve
    exact h.serve (Server.regInv_step _ _ _ h.registry hserve)
      (Server.stopInv_step _ _ _ h.registry h.stop hserve) hsame
      (fun id v _ hid => Or.inl (hlive ▸ hid)) hshut
  | @session id act v w halone hv hw =>
    refine h.stepSession hv h.registry h.stop
      (Strand.liveInv_step handlers (repo id) v act w (h.live id v hv) hw) rfl rfl (fun hid => ?_)
      (fun x hx => Or.inl hx) fun hid => hclosed hv hw (h.shut id hid v hv)
    rw [Strand.unreferenced_blocked (h.free id v hv hid) halone] at hw
    cases hw
  | @visitDuring id i idle v w u hv hid hopen hsend hvisit hw =>
    obtain ⟨hsame, hlive, hshut, _⟩ := stopVisit_same hvisit
    exact h.stepSession hv (Server.regInv_step _ _ _ h.registry hvisit)
      (Server.stopInv_step _ _ _ h.registry h.stop hvisit)
      (Strand.liveInv_step handlers (repo id) v _ w (h.live id v hv) hw) hsame hlive
      (fun hnot => absurd (hlive ▸ hid) hnot) hshut
      fun _ => Strand.raced_closed (h.live id v hv).session hsend hw
  | signal hwait =>
    rcases Server.beginStop_eq s.server with heq | hflag
    · rw [heq]
      exact h.serve h.registry h.stop rfl (fun id v _ hid => Or.inl hid) rfl
    · obtain ⟨hsame, hlive, hshut⟩ := Server.serve_registered (by simp) (by simp) (by simp) hflag
      exact h.serve (Server.regInv_step _ _ _ h.registry hflag)
        (Server.stopInv_step _ _ _ h.registry h.stop hflag) hsame
        (fun id v _ hid => Or.inl (hlive ▸ hid)) hshut

theorem tcpServerInv_run {acts : List TCPServerAct} {s : TCPServer Q A}
    (h : Runs.exec (step handlers repo inputs) init acts = some s) : TCPServerInv s :=
  Runs.exec_invariant (tcpServerInv_step handlers repo inputs) tcpServerInv_init h

/-! ## A session that is released -/

/-- A step of the server leaves a session alone that nothing holds. -/
theorem untouched_step {s t : TCPServer Q A} {act : TCPServerAct} (h : TCPServerInv s) {id : Nat}
    (hid : id ∈ s.server.registered) (hdead : id ∉ s.server.live)
    (hstep : step handlers repo inputs s act = some t) :
    id ∈ t.server.registered ∧ t.sessions id = s.sessions id ∧ id ∉ t.server.live := by
  cases takes_of_step hstep with
  | @run i raced fault u hstart hrun =>
    have hne : id ≠ s.server.nextId := by
      rintro rfl
      exact h.registry.fresh_not_registered hid
    rcases startHandling_cases inputs (Server.registers_run hrun)
      h.registry.fresh_not_registered s.sessions with ⟨hsame, hlive, hsess⟩ | ⟨hnew, hlive, hsess⟩
    · exact ⟨hsame ▸ hid, congrFun hsess id, hlive ▸ hdead⟩
    · refine ⟨hnew ▸ List.mem_append_left _ hid, ?_, ?_⟩
      · show startHandling inputs s.server u s.sessions id = _
        rw [hsess, Function.update_of_ne hne]
      · show id ∉ u.live
        rw [hlive, List.mem_append, List.mem_singleton, not_or]
        exact ⟨hdead, hne⟩
  | @visit id' u hvisit =>
    obtain ⟨hsame, hlive, _⟩ := stopVisit_same hvisit
    refine ⟨hsame ▸ hid, ?_, hlive ▸ hdead⟩
    simp only [TCPServer.visit]
    split
    · rename_i hid'
      rw [Function.update_of_ne]
      rintro rfl
      exact hdead hid'
    · rfl
  | release _ hrelease =>
    obtain ⟨_, hsame, hlive, _⟩ := Server.release_step hrelease
    exact ⟨hsame ▸ hid, rfl, fun hm => hdead (List.mem_of_mem_erase (hlive ▸ hm))⟩
  | server hrun hvisit hrelease hserve =>
    obtain ⟨hsame, hlive, _⟩ := Server.serve_registered hrun hvisit hrelease hserve
    exact ⟨hsame ▸ hid, rfl, hlive ▸ hdead⟩
  | @session id' act v w halone hv hw =>
    refine ⟨hid, ?_, hdead⟩
    by_cases heq : id = id'
    · subst heq
      rw [Strand.unreferenced_blocked (h.free id v hv hdead) halone] at hw
      cases hw
    · exact Function.update_of_ne heq _ _
  | @visitDuring id' i idle v w u hv hlive' _ _ hvisit _ =>
    obtain ⟨hsame, hlive, _⟩ := stopVisit_same hvisit
    refine ⟨hsame ▸ hid, ?_, hlive ▸ hdead⟩
    refine Function.update_of_ne ?_ _ _
    rintro rfl
    exact hdead hlive'
  | signal =>
    rcases Server.beginStop_eq s.server with heq | hflag
    · show id ∈ s.server.beginStop.registered ∧ _ ∧ id ∉ s.server.beginStop.live
      rw [heq]
      exact ⟨hid, rfl, hdead⟩
    · obtain ⟨hsame, hlive, _⟩ := Server.serve_registered (by simp) (by simp) (by simp) hflag
      exact ⟨hsame ▸ hid, rfl, hlive ▸ hdead⟩

/-! ## The runs of the sessions -/

/-- Every session has run on its own, by steps that meet `P`. -/
def RunsAlone (P : StrandAct → Prop) (handlers : Handlers Q A) (repo : Nat → Nat → Q → A)
    (inputs : Nat → Bytes) (s : TCPServer Q A) : Prop :=
  ∀ id v, s.sessions id = some v → ∃ acts, (∀ act ∈ acts, P act) ∧
    Runs.exec (Strand.step handlers (repo id)) (.init (inputs id)) acts = some v

theorem RunsAlone.update {P : StrandAct → Prop} {s : TCPServer Q A}
    (h : RunsAlone P handlers repo inputs s) {id : Nat} {v w : Strand Q A} {act : StrandAct}
    (hP : P act) (hv : s.sessions id = some v) (hw : v.step handlers (repo id) act = some w)
    {t : Server} {waits : Bool} : RunsAlone P handlers repo inputs
      { s with
        server := t
        sessions := Function.update s.sessions id (some w)
        signalWait := waits } := by
  intro x u hu
  simp only [Function.update_apply] at hu
  split at hu
  · rename_i heq
    cases hu
    obtain ⟨acts, hacts, hrun⟩ := h id v hv
    subst heq
    refine ⟨acts ++ [act], fun a ha => ?_, Runs.exec_trans hrun (Runs.exec_single hw)⟩
    rcases List.mem_append.mp ha with ha | ha
    · exact hacts a ha
    · exact List.mem_singleton.mp ha ▸ hP
  · exact h x u hu

/-- The steps of the sessions meet `P`. -/
def TCPServerAct.Meets (P : StrandAct → Prop) : TCPServerAct → Prop
  | .session _ act => P act
  | .visitDuring _ i idle => P (.run i true idle)
  | .server _ | .signal => True

theorem runsAlone_step {P : StrandAct → Prop} (hflag : P .closeFlag) (s : TCPServer Q A)
    (act : TCPServerAct) (t : TCPServer Q A)
    (h : TCPServerInv s ∧ RunsAlone P handlers repo inputs s) (hact : TCPServerAct.Meets P act)
    (hstep : step handlers repo inputs s act = some t) :
    TCPServerInv t ∧ RunsAlone P handlers repo inputs t := by
  refine ⟨tcpServerInv_step handlers repo inputs s act t h.1 hstep, ?_⟩
  obtain ⟨hinv, hruns⟩ := h
  cases takes_of_step hstep with
  | @run i raced fault u hstart hrun =>
    rcases startHandling_cases inputs (Server.registers_run hrun)
      hinv.registry.fresh_not_registered s.sessions with ⟨_, _, hsess⟩ | ⟨_, _, hsess⟩
    · rw [hsess]
      exact hruns
    · rw [hsess]
      intro x v hv
      simp only [Function.update_apply] at hv
      split at hv
      · rename_i heq
        cases hv
        exact ⟨[], by simp, by rw [heq]; rfl⟩
      · exact hruns x v hv
  | @visit id u hvisit =>
    unfold TCPServer.visit
    split
    · rename_i hid
      obtain ⟨v, hv⟩ := hinv.started hid
      rw [hv, Option.map_some]
      cases hc : v.isClosed with
      | true =>
        rw [Strand.beginShutdown_closed hc, ← hv, Function.update_eq_self]
        exact hruns
      | false => exact hruns.update hflag hv (Strand.beginShutdown_open hc)
    · exact hruns
  | release | server | signal => exact hruns
  | session _ hv hw => exact hruns.update hact hv hw
  | visitDuring hv _ _ _ _ hw => exact hruns.update hact hv hw

theorem session_run {P : StrandAct → Prop} (hflag : P .closeFlag) {acts : List TCPServerAct}
    {s : TCPServer Q A} (hacts : ∀ act ∈ acts, TCPServerAct.Meets P act)
    (h : Runs.exec (step handlers repo inputs) init acts = some s) :
    RunsAlone P handlers repo inputs s :=
  (Runs.exec_invariant_of (runsAlone_step hflag)
    ⟨tcpServerInv_init, fun _ _ h => (nomatch h)⟩ hacts h).2

/-! ## Results -/

/-- **Sessions do not disturb each other.**  In every run of the server in which the strands run
    their tasks in order, each session runs as it could on its own; what it has written decodes
    without a remainder, and answers, pings left out, the first frames that its own client has
    sent. -/
theorem sessions_isolated {repo : Nat → Nat → Bytes → DbOutcome} {acts : List TCPServerAct}
    {s : TCPServer Bytes DbOutcome} (hacts : ∀ act ∈ acts, TCPServerAct.Meets Strand.InOrder act)
    (h : Runs.exec (step makeSessionHandlers repo inputs) init acts = some s) {id : Nat}
    {v : Strand Bytes DbOutcome} (hv : s.sessions id = some v) :
    (∃ acts', (∀ act ∈ acts', Strand.InOrder act) ∧
      Runs.exec (Strand.step makeSessionHandlers (repo id)) (.init (inputs id)) acts' = some v) ∧
    replies (framesOf v.writer.written) <+: responses (repo id) 0 (framesOf (inputs id)) ∧
    remainderOf v.writer.written = [] := by
  obtain ⟨acts', hacts', hrun⟩ := session_run trivial hacts h id v hv
  exact ⟨⟨acts', hacts', hrun⟩, Strand.responses_run hacts' hrun⟩

/-- The first client pings, and the second logs in. -/
def twoInputs (id : Nat) : Bytes := if id = 0 then Strand.pingFrame else Strand.loginFrame

/-- Two clients connect; their requests are read, and the responses written, turn and turn
    about. -/
def twoClients : List TCPServerAct :=
  [.server (.run 0 false none), .server (.acceptDone false), .server (.run 0 false none),
    .server (.acceptDone false), .server (.run 0 false none),
    .session 0 (.run 0 false 0), .session 1 (.run 0 false 0), .session 1 (.run 0 false 0),
    .session 0 (.run 0 false 0), .session 1 (.readDone true), .session 0 (.readDone true),
    .session 1 (.run 0 false 0), .session 0 (.run 0 false 0), .session 1 (.readDone true),
    .session 0 (.run 0 false 0), .session 1 (.run 0 false 0),
    .session 0 (.writeDone (gather [.ofArgs Strand.pongArgs] .empty) false),
    .session 1 .answer, .session 0 (.run 0 false 0), .session 1 (.run 0 false 0),
    .session 1 (.run 0 false 0),
    .session 1 (.writeDone (gather [.ofArgs (loginResponse 1 .success)] .empty) false),
    .session 1 (.run 0 false 0)]

/-- The rule at that run: each client has its own answer. -/
theorem sessions_isolated_two_clients :
    ∃ (s : TCPServer Bytes DbOutcome) (v w : Strand Bytes DbOutcome),
      Runs.exec (step makeSessionHandlers (fun _ => Strand.rightPassword) twoInputs) init
        twoClients = some s ∧ s.sessions 0 = some v ∧ s.sessions 1 = some w ∧
      v.writer.written = [0, 0, 0, 1, 0, 0, 0, 0, 0, 1] ∧
      w.writer.written = [0, 0, 0, 2, 0, 0, 0, 4, 0, 1, 0, 0, 0, 0] ∧
      replies (framesOf v.writer.written) <+:
        responses Strand.rightPassword 0 (framesOf Strand.pingFrame) ∧
      replies (framesOf w.writer.written) <+:
        responses Strand.rightPassword 0 (framesOf Strand.loginFrame) := by
  obtain ⟨s, v, w, hrun, hv, hw, hpong, hresponse⟩ :
      ∃ (s : TCPServer Bytes DbOutcome) (v w : Strand Bytes DbOutcome),
        Runs.exec (step makeSessionHandlers (fun _ => Strand.rightPassword) twoInputs) init
          twoClients = some s ∧ s.sessions 0 = some v ∧ s.sessions 1 = some w ∧
        v.writer.written = [0, 0, 0, 1, 0, 0, 0, 0, 0, 1] ∧
        w.writer.written = [0, 0, 0, 2, 0, 0, 0, 4, 0, 1, 0, 0, 0, 0] :=
    ⟨_, _, _, rfl, rfl, rfl, rfl, rfl⟩
  have horder : ∀ act ∈ twoClients, TCPServerAct.Meets Strand.InOrder act := by
    simp [twoClients, TCPServerAct.Meets, Strand.InOrder]
  exact ⟨s, v, w, hrun, hv, hw, hpong, hresponse, (sessions_isolated horder hrun hv).2.1,
    (sessions_isolated horder hrun hw).2.1⟩

/-- **A session that nothing holds is left alone.**  Once the last reference to a session has gone,
    and so also while its deletion is posted and after it, no step of the server runs one of its
    tasks, completes a read, a write or a wait for it, answers it or shuts it down. -/
theorem released_untouched {acts : List TCPServerAct} {s : TCPServer Q A}
    (h : Runs.exec (step handlers repo inputs) init acts = some s) {id : Nat}
    (hid : id ∈ s.server.registered) (hdead : id ∉ s.server.live) :
    (∀ v, s.sessions id = some v → v.isReferenced = false) ∧
    ∀ acts' t, Runs.exec (step handlers repo inputs) s acts' = some t →
      t.sessions id = s.sessions id ∧ id ∉ t.server.live := by
  have hinv := tcpServerInv_run h
  refine ⟨fun v hv => hinv.free id v hv hdead, fun acts' t hrun => ?_⟩
  refine (Runs.exec_invariant (I := fun u : TCPServer Q A => TCPServerInv u ∧
    id ∈ u.server.registered ∧ u.sessions id = s.sessions id ∧ id ∉ u.server.live)
    ?_ ⟨hinv, hid, rfl, hdead⟩ hrun).2.2
  rintro u act u' ⟨hu, hreg, hsame, hnot⟩ hstep
  obtain ⟨hregs, hsess, hlive⟩ := untouched_step hu hreg hnot hstep
  exact ⟨tcpServerInv_step handlers repo inputs u act u' hu hstep, hregs, hsess.trans hsame, hlive⟩

/-- A client connects, and its session begins to read. -/
def oneClient : List TCPServerAct :=
  [.server (.run 0 false none), .server (.acceptDone false), .server (.run 0 false none),
    .session 0 (.run 0 false 0)]

/-- A session ends, and lets go of itself. -/
def oneReleased : List TCPServerAct :=
  oneClient ++ [.session 0 (.readDone false), .session 0 (.run 1 false 0),
    .session 0 (.run 0 false 0), .session 0 (.run 0 false 0), .server (.release 0)]

/-- The rule at that run, whose last task deletes the session. -/
theorem released_untouched_one_client :
    ∃ s : TCPServer Bytes DbOutcome,
      Runs.exec (step makeSessionHandlers (fun _ => Strand.rightPassword)
        fun _ => Strand.loginFrame) init oneReleased = some s ∧ s.server.queue = [.erase 0] ∧
      ∀ acts t, Runs.exec (step makeSessionHandlers (fun _ => Strand.rightPassword)
        fun _ => Strand.loginFrame) s acts = some t →
        t.sessions 0 = s.sessions 0 ∧ 0 ∉ t.server.live :=
  ⟨_, rfl, rfl, (@released_untouched _ _ makeSessionHandlers (fun _ => Strand.rightPassword)
    (fun _ => Strand.loginFrame) oneReleased _ rfl 0 (List.mem_singleton.mpr rfl)
    List.not_mem_nil).2⟩

end TCPServer

end Zem
