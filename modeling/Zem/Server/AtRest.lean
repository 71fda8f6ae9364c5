import Zem.Library.Settling
import Zem.Server.TCPServer
import Zem.Server.Workload

/-!
# The server at rest

What the server and its sessions come to when no client connects and no signal arrives.

* `TCPServer.Due` — the steps that are bound to come, on any of the strands.
* `work_step`, `settles_of_inv` — in any interleaving they come to an end.
* `blocked_of_idle`, `live_of_idle`, `idle_of_blocked` — a server at rest, strand by strand.
* `Waiting`, `comes_to_rest` — what a server that runs comes to.
-/

set_option autoImplicit false

namespace Zem

namespace TCPServer

variable {Q A : Type} {handlers : Handlers Q A} {repo : Nat → Nat → Q → A} {inputs : Nat → Bytes}

/-- The steps that are bound to come.  The last reference to a session goes away once it can. -/
def Due (s : TCPServer Q A) : TCPServerAct → Prop
  | .server (.release _) => True
  | .server act => Server.Due s.server act
  | .session id act => ∃ v, s.sessions id = some v ∧ Strand.Due v act
  | .visitDuring _ _ _ => True
  | .signal => False

/-! ## Coming to rest -/

/-- The steps that do not depend on clients and signals, nor on the clocks of open sessions. -/
def Bounded (s : TCPServer Q A) : TCPServerAct → Prop
  | .server act => Server.Bounded s.server act
  | .visitDuring _ _ _ => True
  | .session id act => ∀ v, s.sessions id = some v → Strand.Bounded v act
  | .signal => False

theorem bounded_of_due (s : TCPServer Q A) (act : TCPServerAct) (h : Due s act) :
    Bounded s act := by
  cases act with
  | server act =>
    cases act with
    | run | stopVisit | stopFinish | timerFires | release | stopPost => trivial
    | acceptDone => exact h
    | stopFlag => exact h
  | visitDuring => trivial
  | session id act =>
    obtain ⟨v, hv, hdue⟩ := h
    intro w hw
    rw [hv] at hw
    cases hw
    exact Strand.bounded_of_due v act hdue
  | signal => exact h

/-- What is left to the listening side, and to each session. -/
abbrev Work (Q A : Type) := (Nat × Nat) × (Nat → Strand.Work Q A)

/-- A step of the listening side may leave more to the sessions; there are at most `n` of them. -/
def Work.Less (n : Nat) : Work Q A → Work Q A → Prop :=
  Prod.Lex (Prod.Lex (· < ·) (· < ·)) (Runs.OneLess Strand.Work.Less n)

theorem Work.wellFounded_less (n : Nat) :
    WellFounded (Work.Less n : Work Q A → Work Q A → Prop) :=
  (wellFounded_lt.prod_lex wellFounded_lt).prod_lex
    (Runs.wellFounded_oneLess Strand.Work.wellFounded_less n)

def work (s : TCPServer Q A) : Work Q A :=
  (s.server.toDo, fun id => (s.sessions id).elim (0, (0, .throw, 0), 0) Strand.work)

/-- There is room for `n` sessions. -/
structure Below (n : Nat) (s : TCPServer Q A) : Prop where
  inv : TCPServerInv s
  room : s.server.room ≤ n

theorem Below.lt {n : Nat} {s : TCPServer Q A} (h : Below n s) {id : Nat}
    (hid : id ∈ s.server.registered) : id < n :=
  Nat.lt_of_lt_of_le (h.inv.registry.known id hid) ((Nat.le_add_right _ _).trans h.room)

theorem below_step (n : Nat) (s : TCPServer Q A) (act : TCPServerAct) (t : TCPServer Q A)
    (h : Below n s) (hact : Bounded s act) (hstep : step handlers repo inputs s act = some t) :
    Below n t := by
  have hserver : ∀ (act : ServerAct) {u : Server}, Server.Bounded s.server act →
      s.server.step act = some u → u.room ≤ n := fun _ _ hact hu =>
    (Server.room_step h.inv.registry h.inv.stop hact hu).trans h.room
  refine ⟨tcpServerInv_step handlers repo inputs s act t h.inv hstep, ?_⟩
  cases takes_of_step hstep with
  | run _ hrun => exact hserver (.run _ _ _) trivial hrun
  | visit hvisit => exact hserver (.stopVisit _) trivial hvisit
  | release _ hrelease => exact hserver (.release _) trivial hrelease
  | server _ _ _ hserve => exact hserver _ hact hserve
  | session => exact h.room
  | visitDuring _ _ _ _ hvisit _ => exact hserver (.stopVisit _) trivial hvisit
  | signal => exact hact.elim

/-- **A bounded step takes work away.** -/
theorem work_step {n : Nat} {s t : TCPServer Q A} {act : TCPServerAct} (h : Below n s)
    (hact : Bounded s act) (hstep : step handlers repo inputs s act = some t) :
    Work.Less n t.work s.work := by
  have hserver : ∀ (act : ServerAct) {u : Server}, Server.Bounded s.server act →
      s.server.step act = some u → Prod.Lex (· < ·) (· < ·) u.toDo s.server.toDo :=
    fun _ _ hact hu => Server.toDo_step h.inv.registry h.inv.stop hact hu
  cases takes_of_step hstep with
  | run _ hrun => exact .left _ _ (hserver (.run _ _ _) trivial hrun)
  | visit hvisit => exact .left _ _ (hserver (.stopVisit _) trivial hvisit)
  | release _ hrelease => exact .left _ _ (hserver (.release _) trivial hrelease)
  | server _ _ _ hserve => exact .left _ _ (hserver _ hact hserve)
  | visitDuring _ _ _ _ hvisit _ => exact .left _ _ (hserver (.stopVisit _) trivial hvisit)
  | @session id act v w _ hv hw =>
    have hid : id ∈ s.server.registered := (h.inv.begun id).mpr (by rw [hv]; rfl)
    refine .right _ ⟨id, h.lt hid, ?_, fun x hx => ?_⟩
    · simp only [Function.update_self, hv, Option.elim_some]
      exact Strand.work_step (h.inv.live id v hv).session (hact v hv) hw
    · simp only [Function.update_of_ne hx]
  | signal => exact hact.elim

/-- **The server and its sessions come to rest**, in any interleaving, whether `Stop` has been
    called or not. -/
theorem settles_of_inv {s : TCPServer Q A} (hinv : TCPServerInv s) :
    Runs.Settles (step handlers repo inputs) Bounded s :=
  Runs.settles_of_work (Work.wellFounded_less s.server.room) (below_step s.server.room) work
    (fun _ _ _ h hact => work_step h hact) ⟨hinv, Nat.le_refl _⟩

/-! ## What becomes of the listening side -/

/-- The listening side takes part in a step by one of its own, or not at all. -/
theorem server_step {s t : TCPServer Q A} {act : TCPServerAct}
    (hstep : step handlers repo inputs s act = some t) :
    t.server = s.server ∨ ∃ a, s.server.step a = some t.server := by
  cases takes_of_step hstep with
  | run _ hrun => exact Or.inr ⟨_, hrun⟩
  | visit hvisit => exact Or.inr ⟨_, hvisit⟩
  | release _ hrelease => exact Or.inr ⟨_, hrelease⟩
  | server _ _ _ hserve => exact Or.inr ⟨_, hserve⟩
  | session => exact Or.inl rfl
  | visitDuring _ _ _ _ hvisit _ => exact Or.inr ⟨_, hvisit⟩
  | signal => exact (Server.beginStop_eq s.server).imp_right fun hflag => ⟨_, hflag⟩

theorem stopped_step (s : TCPServer Q A) (act : TCPServerAct) (t : TCPServer Q A)
    (hst : s.server.isStopped = true) (hstep : step handlers repo inputs s act = some t) :
    t.server.isStopped = true := by
  rcases server_step hstep with heq | ⟨a, ha⟩
  · rw [heq, hst]
  · exact (Server.stopped_step hst ha).1

theorem links_run {acts : List TCPServerAct} {s : TCPServer Q A}
    (h : Runs.exec (step handlers repo inputs) init acts = some s) : s.server.links ≤ 1 := by
  refine Runs.exec_invariant (I := fun s : TCPServer Q A => s.server.links ≤ 1) ?_
    (Nat.le_of_eq Server.links_init) h
  intro s act t hs hstep
  rcases server_step hstep with heq | ⟨a, ha⟩
  · rw [heq]
    exact hs
  · exact (Server.links_step ha).le.trans hs

/-! ## Strand by strand -/

/-- Whatever a session could do by itself, the server could. -/
theorem sessionIdle_of_idle {s : TCPServer Q A} (h : TCPServerInv s) {id : Nat} {v : Strand Q A}
    (hv : s.sessions id = some v) (hidle : Runs.Idle (step handlers repo inputs) Due s) :
    Runs.Idle (Strand.step handlers (repo id)) Strand.Due v := by
  have hblocked : ∀ (act : StrandAct) {w : Strand Q A}, act.isAlone = true →
      Strand.Due v act → v.step handlers (repo id) act ≠ some w := by
    intro act w halone hdue hw
    refine hidle { s with sessions := Function.update s.sessions id (some w) }
      ⟨.session id act, ⟨v, hv, hdue⟩, ?_⟩
    rw [step, if_pos halone, hv, Option.bind_some, hw, Option.map_some]
  rintro w ⟨act, hdue, hw⟩
  cases act with
  | run i raced idle =>
    -- without another thread in between the task would run as well
    cases htask : v.queue[i]? with
    | none => simp [Strand.step, htask] at hw
    | some task =>
      obtain ⟨u, hu⟩ := Strand.task_enabled handlers (repo id) (h.live id v hv) htask
      exact hblocked (.run i false 0) rfl trivial hu
  | send => exact hdue
  | closeFlag => exact hdue
  | readDone | writeDone | hbExpires | answer | closePost => exact hblocked _ rfl hdue hw

theorem step_serve {s : TCPServer Q A} {act : ServerAct} {t : Server}
    (hrun : ∀ i raced fault, act ≠ .run i raced fault) (hvisit : ∀ id, act ≠ .stopVisit id)
    (hrelease : ∀ id, act ≠ .release id) (h : s.server.step act = some t) :
    step handlers repo inputs s (.server act) = some { s with server := t } := by
  cases act with
  | run => exact absurd rfl (hrun _ _ _)
  | stopVisit => exact absurd rfl (hvisit _)
  | release => exact absurd rfl (hrelease _)
  | stopFinish | acceptDone | timerFires | stopFlag | stopPost =>
    simp only [step, h, Option.map_some]

theorem due_serve {s : TCPServer Q A} {act : ServerAct} (hdue : Server.Due s.server act) :
    Due s (.server act) := by
  cases act with
  | release => trivial
  | run | stopVisit | stopFinish | acceptDone | timerFires | stopFlag | stopPost => exact hdue

/-- Whatever the listening side could do, the server could. -/
theorem blocked_of_idle {s : TCPServer Q A}
    (hidle : Runs.Idle (step handlers repo inputs) Due s) (act : ServerAct) (t : Server)
    (hdue : Server.Due s.server act)
    (hfault : ∀ i raced fault, act = .run i raced fault → fault = none) :
    s.server.step act ≠ some t := by
  intro hstep
  have hdue' := due_serve hdue
  cases act with
  | run i raced fault =>
    refine hidle { s with server := t, sessions := startHandling inputs s.server t s.sessions }
      ⟨_, hdue', ?_⟩
    rw [step, if_neg, hstep, Option.map_some]
    simp [hfault i raced fault rfl]
  | stopVisit id =>
    refine hidle { s with server := t, sessions := s.visit id } ⟨_, hdue', ?_⟩
    rw [step, hstep, Option.map_some]
  | release => exact hdue
  | stopFinish | acceptDone | timerFires | stopFlag | stopPost =>
    exact hidle _ ⟨_, hdue', step_serve (by simp) (by simp) (by simp) hstep⟩

/-- A session with a reference left listens, or is left waiting. -/
theorem live_of_idle {s : TCPServer Q A} (h : TCPServerInv s)
    (hidle : Runs.Idle (step handlers repo inputs) Due s) {id : Nat} (hid : id ∈ s.server.live) :
    ∃ v, s.sessions id = some v ∧ (Strand.Listening v ∨ Strand.LeftWaiting v) := by
  obtain ⟨v, hv⟩ := h.started hid
  refine ⟨v, hv, ?_⟩
  cases Strand.atRest_of_idle (h.live id v hv) (sessionIdle_of_idle h hv hidle) with
  | listening hrest => exact Or.inl hrest
  | ended hrest =>
    -- nothing holds it, so its last reference is gone
    have hfree : v.isReferenced = false := Strand.isReferenced_eq_false.mpr
      ⟨hrest.quiet.queue, hrest.quiet.outstanding, hrest.quiet.owed, hrest.readLoop,
        hrest.heartbeat⟩
    refine (hidle { s with
      server := { s.server with live := s.server.live.erase id }.post (.erase id) }
      ⟨.server (.release id), trivial, ?_⟩).elim
    simp only [step, hv, Option.any_some, hfree, Server.step, if_pos hid]
    rfl
  | leftWaiting hrest => exact Or.inr hrest

/-- Nothing is bound to happen where the listening side is blocked and the live sessions, which all
    have something that holds them, are at rest. -/
theorem idle_of_blocked {s : TCPServer Q A} (h : TCPServerInv s)
    (hserver : ∀ act t, Server.Due s.server act → s.server.step act ≠ some t)
    (hheld : ∀ id ∈ s.server.live, ∃ v, s.sessions id = some v ∧ v.isReferenced = true ∧
      Strand.AtRest v) :
    Runs.Idle (step handlers repo inputs) Due s := by
  rintro t ⟨act, hdue, hstep⟩
  cases takes_of_step hstep with
  | run _ hrun => exact hserver (.run _ _ _) _ trivial hrun
  | visit hvisit => exact hserver (.stopVisit _) _ trivial hvisit
  | @release id _ hfree hrelease =>
    obtain ⟨v, hv, href, _⟩ := hheld id (Server.release_step hrelease).1
    rw [hfree v hv] at href
    cases href
  | @server act u _ _ hrelease hserve =>
    refine hserver act u ?_ hserve
    cases act with
    | release => exact absurd rfl (hrelease _)
    | run | stopVisit | stopFinish | acceptDone | timerFires | stopFlag | stopPost => exact hdue
  | @session id act v w halone hv hw =>
    by_cases hid : id ∈ s.server.live
    · obtain ⟨v', hv', _, hrest⟩ := hheld id hid
      obtain ⟨v'', hv'', hdue⟩ := hdue
      rw [hv] at hv' hv''
      cases hv'
      cases hv''
      exact hrest.idle (h.live id v hv).session w ⟨act, hdue, hw⟩
    · rw [Strand.unreferenced_blocked (h.free id v hv hid) halone] at hw
      cases hw
  | visitDuring _ _ _ _ hvisit _ => exact hserver (.stopVisit _) _ trivial hvisit
  | signal => exact hdue

/-- A session that listens or is left waiting holds itself. -/
theorem held_of_rest {v : Strand Q A} (h : Strand.Listening v ∨ Strand.LeftWaiting v) :
    v.isReferenced = true ∧ Strand.AtRest v := by
  rcases h with hlisten | hleft
  · obtain ⟨w, hw⟩ := hlisten.beats
    exact ⟨by simp [Strand.isReferenced, hw], .listening hlisten⟩
  · exact ⟨by simp [Strand.isReferenced, hleft.readLoop, ReadPos.isRunning], .leftWaiting hleft⟩

/-! ## A server that runs -/

/-- The server waits for the next client, and its sessions for theirs, but for those that are
    closed and left in the wait on `m_resume_read`. -/
structure Waiting (s : TCPServer Q A) : Prop where
  server : Server.Waiting s.server
  sessions : ∀ id ∈ s.server.live, ∃ v, s.sessions id = some v ∧
    (Strand.Listening v ∨ Strand.LeftWaiting v)

theorem waiting_of_idle {s : TCPServer Q A} (h : TCPServerInv s) (hst : s.server.isStopped = false)
    (hidle : Runs.Idle (step handlers repo inputs) Due s) : Waiting s :=
  ⟨Server.waiting_of_blocked h.registry h.stop hst (blocked_of_idle hidle),
    fun _ hid => live_of_idle h hidle hid⟩

theorem Waiting.idle {s : TCPServer Q A} (h : TCPServerInv s) (hwait : Waiting s) :
    Runs.Idle (step handlers repo inputs) Due s := by
  refine idle_of_blocked h (Server.blocked_of_quiet hwait.server.quiet
    (Or.inr hwait.server.acceptorOpen)) fun id hid => ?_
  obtain ⟨v, hv, hrest⟩ := hwait.sessions id hid
  exact ⟨v, hv, held_of_rest hrest⟩

/-- The registry of a server that waits holds its live sessions and no others. -/
theorem Waiting.registry {s : TCPServer Q A} (h : TCPServerInv s) (hwait : Waiting s) (id : Nat) :
    id ∈ s.server.sessions ↔ id ∈ s.server.live := by
  rw [h.registry.entries hwait.server.workGuard]
  constructor
  · rintro ⟨hid, hdel⟩
    have honce := h.registry.once id
    rw [if_pos (h.registry.known id hid), Server.made, hwait.server.quiet.queue,
      List.count_eq_zero.mpr hdel, List.count_nil] at honce
    exact List.count_pos_iff.mp (by omega)
  · exact fun hid => ⟨h.registry.live id hid, h.registry.not_deleted hid⟩

/-- **A server that runs comes to rest, and is never blocked half-way.**  From every state, whether
    `Stop` has been called or not, the strands of the listening side and of all sessions do not go
    on for ever by themselves.  As long as the server is not stopped, nothing is bound to happen
    exactly when it waits for the next client, with at most one accept in progress, and its
    sessions for theirs; then the registry holds exactly the sessions that are still alive. -/
theorem comes_to_rest {acts : List TCPServerAct} {s : TCPServer Q A}
    (h : Runs.exec (step handlers repo inputs) init acts = some s) :
    Runs.Settles (step handlers repo inputs) Due s ∧
    (s.server.isStopped = false → (Runs.Idle (step handlers repo inputs) Due s ↔ Waiting s)) ∧
    (Waiting s → s.server.accepting ≤ 1 ∧
      ∀ id, id ∈ s.server.sessions ↔ id ∈ s.server.live) := by
  have hinv := tcpServerInv_run h
  refine ⟨(settles_of_inv hinv).mono bounded_of_due, fun hst => ⟨waiting_of_idle hinv hst,
    Waiting.idle hinv⟩, fun hwait => ⟨?_, hwait.registry hinv⟩⟩
  have hlinks := links_run h
  simp only [Server.links] at hlinks
  omega

/-- A client connects, and its session waits for it. -/
def oneListening : List TCPServerAct := oneClient ++ [.session 0 (.run 0 false 0)]

/-- The rule at that run: nothing is bound to happen until the client sends. -/
theorem comes_to_rest_one_client :
    ∃ s : TCPServer Bytes DbOutcome,
      Runs.exec (step makeSessionHandlers (fun _ => Strand.rightPassword) fun _ => []) init
        oneListening = some s ∧
      Runs.Idle (step makeSessionHandlers (fun _ => Strand.rightPassword) fun _ => []) Due s ∧
      s.server.accepting = 1 ∧ ∀ id, id ∈ s.server.sessions ↔ id ∈ s.server.live := by
  have hrun : Runs.exec (step makeSessionHandlers (fun _ => Strand.rightPassword) fun _ => [])
      (init : TCPServer Bytes DbOutcome) oneListening = some _ := rfl
  obtain ⟨_, hrest, hwait⟩ := comes_to_rest hrun
  have hidle := (hrest rfl).mpr ⟨⟨rfl, ⟨rfl, rfl, rfl, rfl⟩, rfl, rfl⟩, fun id hid => by
    rw [List.mem_singleton.mp hid]
    exact ⟨_, rfl, Or.inl ⟨rfl, ⟨rfl, rfl, rfl⟩, ⟨rfl, by decide⟩, ⟨_, rfl⟩⟩⟩⟩
  exact ⟨_, hrun, hidle, rfl, (hwait ((hrest rfl).mp hidle)).2⟩

end TCPServer

end Zem
