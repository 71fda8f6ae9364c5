import Zem.Server.AtRest

/-!
# The end of the process

`Stop` and what becomes of the listening side, of the sessions and of `Run` after it.

* `TCPServer.Over`, `idle_iff_over` — what a stopped server comes to.
* `stop_completes` — it comes to that from every reachable state.
* `HasWork`, `run_returns_iff` — when the threads of `Run` come back.
-/

set_option autoImplicit false

namespace Zem

namespace TCPServer

variable {Q A : Type} {handlers : Handlers Q A} {repo : Nat → Nat → Q → A} {inputs : Nat → Bytes}

/-! ## The end -/

/-- Nothing is in progress but waits on `m_resume_read` in closed sessions. -/
structure Over (s : TCPServer Q A) : Prop where
  server : Server.AtEnd s.server
  sessions : ∀ id ∈ s.server.live, ∃ v, s.sessions id = some v ∧ Strand.LeftWaiting v

theorem over_of_idle {s : TCPServer Q A} (h : TCPServerInv s) (hst : s.server.isStopped = true)
    (hidle : Runs.Idle (step handlers repo inputs) Due s) : Over s := by
  have hend := Server.atEnd_of_blocked h.registry h.stop hst (blocked_of_idle hidle)
  refine ⟨hend, fun id hid => ?_⟩
  obtain ⟨v, hv, hlisten | hleft⟩ := live_of_idle h hidle hid
  · -- `Stop` has shut it down
    have hclosed := h.shut id ((h.registry.emptied hend.workGuard).2 id hid) v hv
    rw [hlisten.opened] at hclosed
    cases hclosed
  · exact ⟨v, hv, hleft⟩

/-- At the end nothing is bound to happen. -/
theorem Over.idle {s : TCPServer Q A} (h : TCPServerInv s) (hover : Over s) :
    Runs.Idle (step handlers repo inputs) Due s := by
  obtain ⟨hend, hleft⟩ := hover
  refine idle_of_blocked h (Server.blocked_of_quiet hend.quiet (Or.inl hend.accepting))
    fun id hid => ?_
  obtain ⟨v, hv, hl⟩ := hleft id hid
  exact ⟨v, hv, held_of_rest (Or.inr hl)⟩

theorem idle_iff_over {s : TCPServer Q A} (h : TCPServerInv s) (hst : s.server.isStopped = true) :
    Runs.Idle (step handlers repo inputs) Due s ↔ Over s :=
  ⟨over_of_idle h hst, Over.idle h⟩

/-- At the end every session is deleted, but for those that are left waiting. -/
theorem Over.deleted {s : TCPServer Q A} (h : TCPServerInv s) (hover : Over s) {id : Nat}
    (hid : id < s.server.nextId) :
    id ∈ s.server.deleted ∨ ∃ v, s.sessions id = some v ∧ Strand.LeftWaiting v := by
  by_cases hlive : id ∈ s.server.live
  · exact Or.inr (hover.sessions id hlive)
  · have honce := h.registry.once id
    rw [if_pos hid, Server.made, hover.server.queue, List.count_eq_zero.mpr hlive,
      List.count_nil] at honce
    exact Or.inl (List.count_pos_iff.mp (by omega))

/-! ## Results -/

/-- **`Stop` is complete.**  Once it has been called, on whichever thread, the strands of the
    listening side and of all sessions do not go on for ever, in any order of their tasks.  When
    nothing is bound to happen any more the acceptor is closed, no accept and no retry timer is in
    progress, the work guard is gone and the registry is empty; and every session ever made is
    deleted, but for those whose `ReadLoop` waits, closed under backpressure, for a wake-up that
    nobody owes it. -/
theorem stop_completes {acts : List TCPServerAct} {s : TCPServer Q A}
    (h : Runs.exec (step handlers repo inputs) init acts = some s)
    (hst : s.server.isStopped = true) :
    Runs.Settles (step handlers repo inputs) Due s ∧
    ∀ acts' t, Runs.exec (step handlers repo inputs) s acts' = some t →
      (Runs.Idle (step handlers repo inputs) Due t ↔ Over t) ∧
      (Over t → ∀ id < t.server.nextId, id ∈ t.server.deleted ∨
        ∃ v, t.sessions id = some v ∧ Strand.LeftWaiting v) := by
  have hinv := tcpServerInv_run h
  refine ⟨(settles_of_inv hinv).mono bounded_of_due, fun acts' t hrun => ?_⟩
  have hend := tcpServerInv_run (Runs.exec_trans h hrun)
  have hstopped := Runs.exec_invariant (I := fun u : TCPServer Q A => u.server.isStopped = true)
    stopped_step hst hrun
  exact ⟨idle_iff_over hend hstopped, fun hover id hid => hover.deleted hend hid⟩

/-- Every client sends a login for the right password. -/
abbrev stepLogins : TCPServer Bytes DbOutcome → TCPServerAct → Option (TCPServer Bytes DbOutcome) :=
  step makeSessionHandlers (fun _ => Strand.rightPassword) fun _ => Strand.loginFrame

/-- A client connects, and then a signal comes: `Stop` visits the session before it has run. -/
def signalled : List TCPServerAct :=
  [.server (.run 0 false none), .server (.acceptDone false), .server (.run 0 false none), .signal,
    .server .stopPost, .server (.run 0 false none), .server (.stopVisit 0), .server .stopFinish]

/-- The session and the accept end, and the session is deleted. -/
def ending : List TCPServerAct :=
  [.session 0 .closePost, .session 0 (.run 0 false 0), .session 0 (.run 0 false 0),
    .session 0 (.run 0 false 0), .session 0 (.readDone false), .session 0 (.run 0 false 0),
    .server (.release 0), .server (.run 0 false none), .server (.acceptDone true),
    .server (.run 0 false none)]

/-- The rule at that run. -/
theorem stop_completes_one_client :
    ∃ s, Runs.exec stepLogins init (signalled ++ ending) = some s ∧
      Runs.Settles stepLogins Due s ∧ ∀ id < s.server.nextId, id ∈ s.server.deleted ∨
        ∃ v, s.sessions id = some v ∧ Strand.LeftWaiting v := by
  have hrun : Runs.exec stepLogins init (signalled ++ ending) = some _ := rfl
  have hstop := stop_completes hrun rfl
  refine ⟨_, hrun, hstop.1, (hstop.2 [] _ rfl).2 ⟨?_, ?_⟩⟩
  · exact ⟨rfl, rfl, rfl, rfl, rfl, rfl, rfl, rfl⟩
  · exact fun id hid => absurd hid List.not_mem_nil

end TCPServer

/-- What `io_context::run` waits for in a session. -/
def Strand.HasWork {Q A : Type} (v : Strand Q A) : Prop :=
  v.queue ≠ [] ∨ v.writer.outstanding ≠ [] ∨ v.readPos ≠ .finished ∨ v.hbPos ≠ .finished

namespace TCPServer

variable {Q A : Type} {handlers : Handlers Q A} {repo : Nat → Nat → Q → A} {inputs : Nat → Bytes}

/-- What `io_context::run` waits for: the work guard, tasks, accepts, timers, the signals, and what
    the sessions have in progress. -/
def HasWork (s : TCPServer Q A) : Prop :=
  s.server.workGuard = true ∨ s.server.queue ≠ [] ∨ s.server.stopping ≠ none ∨
    0 < s.server.accepting ∨ 0 < s.server.retrying ∨ s.signalWait = true ∨
    ∃ id v, s.sessions id = some v ∧ v.HasWork

/-- A server at its end whose sessions are all let go of has no work. -/
theorem not_hasWork {s : TCPServer Q A} (h : TCPServerInv s) (hend : Server.AtEnd s.server)
    (hwait : s.signalWait = false) (hlive : s.server.live = []) : ¬ s.HasWork := by
  simp only [HasWork, hend.workGuard, hend.queue, hend.stopping, hend.accepting, hend.retrying,
    hwait]
  rintro (hf | hf | hf | hf | hf | hf | ⟨id, v, hv, hf⟩)
  · cases hf
  · exact hf rfl
  · exact hf rfl
  · exact Nat.lt_irrefl 0 hf
  · exact Nat.lt_irrefl 0 hf
  · cases hf
  · have hfree := h.free id v hv (by rw [hlive]; exact List.not_mem_nil)
    obtain ⟨hq, ho, _, hp, hb⟩ := Strand.isReferenced_eq_false.mp hfree
    simp [Strand.HasWork, hq, ho, hp, hb] at hf

/-- **When `Run` returns.**  In a state in which nothing is bound to happen any more the threads of
    `Run` come back exactly if the server is stopped, a signal has ended the wait for it, and every
    session ever made is deleted. -/
theorem run_returns_iff {acts : List TCPServerAct} {s : TCPServer Q A}
    (h : Runs.exec (step handlers repo inputs) init acts = some s)
    (hidle : Runs.Idle (step handlers repo inputs) Due s) :
    ¬ s.HasWork ↔ s.server.isStopped = true ∧ s.signalWait = false ∧
      ∀ id < s.server.nextId, id ∈ s.server.deleted := by
  have hinv := tcpServerInv_run h
  constructor
  · intro hnone
    simp only [HasWork, not_or, not_exists, not_and] at hnone
    obtain ⟨hguard, _, _, _, _, hwait, hsess⟩ := hnone
    have hst := hinv.registry.stopped (Or.inr (Or.inr (Or.inr (Bool.not_eq_true _ ▸ hguard))))
    have hover := over_of_idle hinv hst hidle
    refine ⟨hst, Bool.not_eq_true _ ▸ hwait, fun id hid => ?_⟩
    rcases hover.deleted hinv hid with hdel | ⟨v, hv, hl⟩
    · exact hdel
    · refine absurd (Or.inr (Or.inr (Or.inl ?_))) (hsess id v hv)
      rw [hl.readLoop]
      exact fun hp => nomatch hp
  · rintro ⟨hst, hwait, hdel⟩
    have hlive : s.server.live = [] := List.eq_nil_iff_forall_not_mem.mpr fun id hid =>
      hinv.registry.not_deleted hid (hdel id (hinv.registry.known id (hinv.registry.live id hid)))
    exact not_hasWork hinv (over_of_idle hinv hst hidle).server hwait hlive

/-- The rule at the end of the run with one client: the threads of `Run` come back. -/
theorem run_returns_iff_one_client :
    ∃ s, Runs.exec stepLogins init (signalled ++ ending) = some s ∧ ¬ s.HasWork := by
  have hrun : Runs.exec stepLogins init (signalled ++ ending) = some _ := rfl
  have hidle : Runs.Idle stepLogins Due _ := Over.idle (tcpServerInv_run hrun)
    ⟨⟨rfl, rfl, rfl, rfl, rfl, rfl, rfl, rfl⟩, fun id hid => absurd hid List.not_mem_nil⟩
  refine ⟨_, hrun, (run_returns_iff hrun hidle).mpr ⟨rfl, rfl, fun id hid => ?_⟩⟩
  have hid : id < 1 := hid
  rw [Nat.lt_one_iff.mp hid]
  exact List.mem_singleton.mpr rfl

end TCPServer

end Zem
