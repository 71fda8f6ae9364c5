import Zem.Library.Settling
import Zem.Session.Footprint

/-!
# A session comes to rest

What a session does by itself ends, whatever its handlers do and in whatever order its tasks run:
what it has been sent is finite, and a closed session starts nothing new.

* `Bounded` — every step but a frame from another thread, and a heartbeat of an open session.
* `readWork`, `hbWork`, `restWork`, `work` — what is left to do.
* `work_step` — a bounded step takes some work away.
* `settles_of_sessionInv` — the bounded steps come to an end.
-/

set_option autoImplicit false

namespace Zem

/-! ## The write path -/

namespace Writer

/-- What is left to the write path.  A written frame outweighs the write that follows. -/
def writeWork (w : Writer) : Nat := 3 * w.session.writeQueue.length + 2 * w.outstanding.length

/-- A frame that leaves the session open or finds it closed adds a queued one and a write at
    most. -/
theorem sendFrame_work {w w' : Writer} {a : SendArgs} {raced : Bool}
    (hs : w.session.pendingBytes ≤ sizeMax) (h : w.step (.sendFrame a raced) = some w')
    (hsame : w'.session.isClosed = w.session.isClosed) : w'.writeWork ≤ w.writeWork + 5 := by
  rcases sendFrame_step hs h with
    ⟨_, rfl⟩ | ⟨ho, _, _, _, _, rfl⟩ | ⟨_, _, _, ⟨_, rfl⟩ | ⟨_, _, rfl⟩⟩
  · omega
  · rw [ho] at hsame
    cases hsame
  · simp only [writeWork, afterPush, TCPSession.pushed, List.length_append,
      List.length_singleton]
    omega
  · simp only [writeWork, startWrite, setWriting, afterPush,
      TCPSession.pushed, List.length_append, List.length_singleton]
    omega

/-- A completion takes its write away, and the frames of it before the next write starts. -/
theorem writeDone_work {w w' : Writer} {b : Batch} {ec : Bool} (hinv : WriterInv w)
    (h : w.step (.writeDone b ec) = some w') : w'.writeWork + 2 ≤ w.writeWork := by
  obtain ⟨hb, hcase⟩ := writeDone_step h
  obtain ⟨hout, hcut⟩ := hinv.outstanding_eq hb
  have hpos := hcut.pos
  have hle := hcut.le
  rcases hcase with ⟨_, rfl⟩ | ⟨_, _, rfl⟩ | ⟨_, _, _, rfl⟩
  · simp [writeWork, afterError, hout]
  · simp only [writeWork, setWriting, afterPop, TCPSession.popped, hout,
      List.length_drop, List.erase_cons_head, List.length_nil, List.length_singleton]
    omega
  · simp only [writeWork, startWrite, afterPop, TCPSession.popped, hout,
      List.length_drop, List.erase_cons_head, List.nil_append, List.length_singleton]
    omega

end Writer

namespace Strand

variable {Q A : Type}

/-! ## What is left to do -/

/-- The steps that do not depend on what others send, nor on the clock of an open session. -/
def Bounded (s : Strand Q A) : StrandAct → Prop
  | .send _ => False
  | .hbExpires => s.isClosed = true
  | .run _ _ _ | .readDone _ | .writeDone _ _ | .answer | .closeFlag | .closePost => True

/-- Where `ReadLoop` is, what is left of its handler, and whether that is about to run. -/
abbrev ReadWork (Q A : Type) := Nat × Coroutine Q A ConnCall Unit × Nat

def ReadWork.Less : ReadWork Q A → ReadWork Q A → Prop :=
  Prod.Lex (· < ·) (Prod.Lex Coroutine.Left (· < ·))

theorem ReadWork.wellFounded_less :
    WellFounded (ReadWork.Less : ReadWork Q A → ReadWork Q A → Prop) :=
  wellFounded_lt.prod_lex (Coroutine.wellFounded_left.prod_lex wellFounded_lt)

theorem ReadWork.Less.of_fst {v w : ReadWork Q A} (h : v.1 < w.1) : ReadWork.Less v w :=
  Prod.lex_def.mpr (Or.inl h)

/-- What is left to `ReadLoop` up to its next read.  A read of a header leads to a frame; on a
    closed socket only the read that was in progress can, and before that the input counts. -/
def readWork (cleanedUp : Bool) : ReadPos Q A → ReadWork Q A
  | .finished => (0, .throw, 0)
  | .scheduled (.header none) | .scheduled (.body _ _ none) => (1, .throw, 0)
  | .headerRead live => (if cleanedUp && live then 10 else 2, .throw, 0)
  | .scheduled .woken => (3, .throw, 0)
  | .resumeWait => (4, .throw, 0)
  | .scheduled .start => (5, .throw, 0)
  | .handlerWait q k => (6, .await q k, 0)
  | .scheduled (.answered rest) => (6, rest, 1)
  | .scheduled (.body _ _ (some _)) => (7, .throw, 0)
  | .bodyRead _ _ _ _ => (8, .throw, 0)
  | .scheduled (.header (some _)) => (9, .throw, 0)

/-- The checks left to `Heartbeat`; in an open session those that are due. -/
def hbWork (isClosed : Bool) : HbPos → Nat
  | .finished => 0
  | .scheduled (.woken .interval false) => if isClosed then 3 else 1
  | .scheduled .start | .scheduled (.woken _ true) | .scheduled (.woken .grace false) => 1
  | .waiting .interval => if isClosed then 4 else 0
  | .waiting .grace => if isClosed then 2 else 0

/-- A check outweighs the ping it sends, and a posted frame the queued one and the write it
    starts. -/
def restWork (s : Strand Q A) : Nat :=
  8 * hbWork s.isClosed s.hbPos + 6 * s.queue.countP isSendFrame +
    s.writer.writeWork + (1 - s.queue.countP isWriteDone) + s.owed.toNat

/-- What ends with the session, and with its socket. -/
def phase (s : Strand Q A) : Nat :=
  (!s.isClosed).toNat + if s.cleanedUp then 0 else s.input.length + 1

abbrev Work (Q A : Type) := Nat × ReadWork Q A × Nat

def Work.Less : Work Q A → Work Q A → Prop := Prod.Lex (· < ·) (Prod.Lex ReadWork.Less (· < ·))

theorem Work.wellFounded_less : WellFounded (Work.Less : Work Q A → Work Q A → Prop) :=
  wellFounded_lt.prod_lex (ReadWork.wellFounded_less.prod_lex wellFounded_lt)

def work (s : Strand Q A) : Work Q A := (s.phase, readWork s.cleanedUp s.readPos, s.restWork)

/-! ## Less work -/

theorem less_of_phase {s t : Strand Q A} (h : t.phase < s.phase) : Work.Less t.work s.work :=
  .left _ _ h

theorem less_of_read {s t : Strand Q A} (hphase : t.phase ≤ s.phase)
    (hread : ReadWork.Less (readWork t.cleanedUp t.readPos) (readWork s.cleanedUp s.readPos)) :
    Work.Less t.work s.work := by
  rcases Nat.lt_or_eq_of_le hphase with hlt | heq
  · exact less_of_phase hlt
  · rw [work, work, heq]
    exact .right _ (.left _ _ hread)

theorem phase_le {s t : Strand Q A} (hclosed : s.isClosed = true → t.isClosed = true)
    (hclean : t.cleanedUp = s.cleanedUp) (hinput : t.input.length ≤ s.input.length) :
    t.phase ≤ s.phase := by
  have hc : (!t.isClosed).toNat ≤ (!s.isClosed).toNat := by
    cases hs : s.isClosed with
    | false => exact Bool.toNat_le _
    | true => simp [hclosed hs]
  unfold phase
  rw [hclean]
  split
  · omega
  · omega

/-- A session that is closed by the step has less to do. -/
theorem phase_lt_of_closed {s t : Strand Q A} (hs : s.isClosed = false) (ht : t.isClosed = true)
    (hclean : t.cleanedUp = s.cleanedUp) (hinput : t.input = s.input) : t.phase < s.phase := by
  simp only [phase, hs, ht, hclean, hinput]
  simp

/-! ## ReadLoop -/

theorem four_lt_of_endsIteration {handlers : Handlers Q A} {s : Strand Q A} {r : Resumption Q A}
    (h : EndsIteration handlers s.writer.session r) (cleanedUp : Bool) :
    4 < (readWork cleanedUp (.scheduled r)).1 := by
  cases r with
  | start => exact Nat.lt_succ_self 4
  | woken => exact h.elim
  | header bytes =>
    cases bytes with
    | none => exact h.elim
    | some bytes => simp [readWork]
  | body t v bytes =>
    cases bytes with
    | none => exact h.elim
    | some bytes => simp [readWork]
  | answered rest => simp [readWork]

/-- **`ReadLoop` between two waits** leaves less to do. -/
theorem NextPos.less {handlers : Handlers Q A} {s : Strand Q A} {r : Resumption Q A}
    {p : ReadPos Q A} (h : NextPos handlers s r p) :
    ReadWork.Less (readWork s.cleanedUp p) (readWork s.cleanedUp (.scheduled r)) := by
  cases h with
  | resumeWait ends => exact .of_fst (four_lt_of_endsIteration ends _)
  | headerRead ends =>
    refine .of_fst ?_
    have hread : (readWork s.cleanedUp (.headerRead (!s.cleanedUp) : ReadPos Q A)).1 = 2 := by
      simp [readWork]
    rw [hread]
    rcases ends with rfl | ends
    · exact Nat.lt_succ_self 2
    · have := four_lt_of_endsIteration ends s.cleanedUp
      omega
  | bodyRead => exact .of_fst (by simp [readWork])
  | @handlerWait r c q k handler stop =>
    cases r with
    | body t v bytes =>
      cases bytes with
      | none => cases handler
      | some bytes => exact .of_fst (by simp [readWork])
    | answered rest =>
      cases handler
      rcases Coroutine.left_of_suspended stop with heq | hleft
      · rw [readWork, readWork, heq]
        exact .right _ (.right _ Nat.zero_lt_one)
      · exact .right _ (.left _ _ hleft)
    | start => cases handler
    | woken => cases handler
    | header => cases handler
  | finished =>
    refine .of_fst ?_
    cases r with
    | header bytes => cases bytes <;> simp [readWork]
    | body t v bytes => cases bytes <;> simp [readWork]
    | start | woken | answered => simp [readWork]

/-! ## Heartbeat -/

/-- From `s` to `t` there is less work, though none of that of `ReadLoop` is done: it is where it
    was, or is woken. -/
structure Lessens (s t : Strand Q A) : Prop where
  phase : t.phase ≤ s.phase
  cleanedUp : t.cleanedUp = s.cleanedUp
  readPos : t.readPos = s.readPos ∨ s.readPos = .resumeWait ∧ t.readPos = .scheduled .woken
  rest : t.phase = s.phase → t.restWork < s.restWork

theorem Lessens.less {s t : Strand Q A} (h : Lessens s t) : Work.Less t.work s.work := by
  rcases h.readPos with hread | ⟨hwait, hwoken⟩
  · rcases Nat.lt_or_eq_of_le h.phase with hlt | heq
    · exact less_of_phase hlt
    · rw [work, work, heq, h.cleanedUp, hread]
      exact .right _ (.right _ (h.rest heq))
  · apply less_of_read h.phase
    rw [hwait, hwoken]
    exact .of_fst (by simp [readWork])

theorem lessens_setHb {s : Strand Q A} {p : HbPos}
    (hwork : hbWork s.isClosed p < hbWork s.isClosed s.hbPos) :
    Lessens s { s with hbPos := p } := by
  refine ⟨Nat.le_refl _, rfl, Or.inl rfl, fun _ => ?_⟩
  simp only [restWork, isClosed] at hwork ⊢
  omega

/-- A `Shutdown` closes the session, or does nothing. -/
theorem lessens_shutdown {s : Strand Q A} {p : HbPos}
    (hwork : hbWork s.isClosed p < hbWork s.isClosed s.hbPos) :
    Lessens s { s.shutdown with hbPos := p } := by
  cases hc : s.isClosed with
  | true =>
    rw [shutdown_closed hc]
    exact lessens_setHb hwork
  | false =>
    rw [shutdown_open hc]
    have hlt : phase { (s.setSession { s.writer.session with isClosed := true }).post .cleanup with
        hbPos := p } < s.phase := phase_lt_of_closed hc rfl rfl rfl
    exact ⟨Nat.le_of_lt hlt, rfl, Or.inl rfl, fun h => absurd h (Nat.ne_of_lt hlt)⟩

/-- **`Heartbeat` between two waits** leaves less to do. -/
theorem resumeHeartbeat_work {s : Strand Q A} (idle : Nat) {r : HbResumption}
    (hpos : s.hbPos = .scheduled r) : Lessens s (s.resumeHeartbeat idle r) := by
  have htop : 0 < hbWork s.isClosed s.hbPos → Lessens s (s.resumeHeartbeat idle .start) := by
    intro hp
    apply lessens_setHb
    cases hc : s.isClosed with
    | true => simpa [heartbeatTop, hbWork, hc] using hp
    | false => simpa [heartbeatTop, hbWork, hc] using hp
  cases r with
  | start => exact htop (by simp [hpos, hbWork])
  | woken wait aborted =>
    cases aborted with
    | true => exact htop (by simp [hpos, hbWork])
    | false =>
      simp only [resumeHeartbeat, heartbeatResume]
      cases wait with
      | interval =>
        have hdue : 0 < hbWork s.isClosed s.hbPos := by
          rw [hpos]
          simp only [hbWork]
          split
          · omega
          · omega
        simp only [Bool.false_eq_true, if_false]
        split
        · exact lessens_shutdown (p := .finished) hdue
        split
        · -- the ping, and the wait for its answer
          refine ⟨Nat.le_refl _, rfl, Or.inl rfl, fun _ => ?_⟩
          have hcheck : hbWork s.isClosed (.waiting .grace) < hbWork s.isClosed s.hbPos := by
            rw [hpos]
            cases s.isClosed <;> decide
          simp only [List.foldl_cons, List.foldl_nil, performHb, restWork, countP_post, isSendFrame,
            isWriteDone, isClosed, Bool.toNat_true, Bool.toNat_false] at hcheck ⊢
          simp only [post]
          omega
        · exact htop hdue
      | grace =>
        simp only [Bool.false_eq_true, if_false]
        split
        · exact lessens_shutdown (p := .finished) (by simp [hpos, hbWork])
        · exact htop (by simp [hpos, hbWork])

/-! ## SendFrame and the completion handler -/

theorem isClosed_of_phase {s t : Strand Q A} (hclean : t.cleanedUp = s.cleanedUp)
    (hinput : t.input = s.input) (h : t.phase = s.phase) : t.isClosed = s.isClosed := by
  simp only [phase, hclean, hinput] at h
  cases hs : s.isClosed <;> cases ht : t.isClosed <;> simp [hs, ht] at h ⊢

/-- A posted frame is dropped, or queued for writing. -/
theorem sendFrame_lessens {handlers : Handlers Q A} {s t : Strand Q A} {a : SendArgs} {i : Nat}
    {raced : Bool} {idle : Nat} (hinv : SessionInv s)
    (hclosed : s.isClosed = true → t.isClosed = true)
    (htask : s.queue[i]? = some (.sendFrame a))
    (h : (s.take i).runTask handlers raced idle (.sendFrame a) = some t) : Lessens s t := by
  have hs := hinv.writer.accounting.bounded
  simp only [runTask] at h
  obtain ⟨u, hu, rfl⟩ := Option.map_eq_some_iff.mp h
  have hpath := callWriter_pathOnly hu
  have hstep := callWriter_writer hu
  refine ⟨phase_le hclosed hpath.cleanedUp (Nat.le_of_eq (congrArg List.length hpath.input)),
    hpath.cleanedUp, hpath.readPos, fun heq => ?_⟩
  have hsame : u.isClosed = s.isClosed := isClosed_of_phase
    (t := { u with owed := s.owed || raced && !s.isClosed }) hpath.cleanedUp hpath.input heq
  have hwork := Writer.sendFrame_work hs hstep hsame
  have hsends := hpath.counts isSendFrame rfl rfl
  have hdones := hpath.counts isWriteDone rfl rfl
  have htake := countP_take htask isSendFrame
  have htake' := countP_take htask isWriteDone
  simp only [isSendFrame, isWriteDone, Bool.toNat_true, Bool.toNat_false] at htake htake'
  -- a race would have closed the session
  have hrace : (raced && !s.isClosed) = false := by
    obtain ⟨w, calls, hcall, rfl⟩ := callWriter_some hu
    have hcalls := (TCPSession.sendFrame_calls a raced hs).1
    rw [isClosed, (foldl_perform_spec calls _).1, (Writer.call_sendFrame hcall).1] at hsame
    rw [← Bool.toNat_eq_zero]
    simp only [take, isClosed] at hsame hcalls ⊢
    rw [hsame] at hcalls
    omega
  rw [restWork, restWork]
  simp only [isClosed, take, hpath.hbPos] at hsame hrace hsends hdones htake htake' hwork ⊢
  rw [hsame, hsends, hdones, hrace, Bool.or_false]
  omega

/-- A completion takes its write away, and may wake `ReadLoop`. -/
theorem written_lessens {s t : Strand Q A} {b : Batch} {ec : Bool} {i : Nat} (hinv : SessionInv s)
    (hclosed : s.isClosed = true → t.isClosed = true)
    (htask : s.queue[i]? = some (.writeDone b ec))
    (h : (s.take i).callWriter (.writeDone b ec) = some t) : Lessens s t := by
  have hpath := callWriter_pathOnly h
  refine ⟨phase_le hclosed hpath.cleanedUp (Nat.le_of_eq (congrArg List.length hpath.input)),
    hpath.cleanedUp, hpath.readPos, fun heq => ?_⟩
  have hsame : t.isClosed = s.isClosed := isClosed_of_phase hpath.cleanedUp hpath.input heq
  have hwork := Writer.writeDone_work hinv.writer (callWriter_writer (s := s.take i) h)
  have hsends := hpath.counts isSendFrame rfl rfl
  have hdones := hpath.counts isWriteDone rfl rfl
  have htake := countP_take htask isSendFrame
  have htake' := countP_take htask isWriteDone
  simp only [isSendFrame, isWriteDone, Bool.toNat_true, Bool.toNat_false] at htake htake'
  rw [restWork, restWork, hpath.owed]
  simp only [isClosed, take, hpath.hbPos] at hsame hsends hdones htake htake' hwork ⊢
  rw [hsame, hsends, hdones]
  omega

/-! ## Steps -/

/-- A task that is neither a frame nor a completion. -/
theorem restWork_take {s : Strand Q A} {i : Nat} {task : Task} (htask : s.queue[i]? = some task)
    (hsend : isSendFrame task = false) (hdone : isWriteDone task = false) :
    (s.take i).restWork = s.restWork := by
  have htake := countP_take htask isSendFrame
  have htake' := countP_take htask isWriteDone
  rw [hsend, Bool.toNat_false, Nat.add_zero] at htake
  rw [hdone, Bool.toNat_false, Nat.add_zero] at htake'
  rw [restWork, restWork, htake, htake']
  rfl

/-- A read that fails, or is the last one on the socket, leaves `ReadLoop` less to do; any other
    leaves fewer bytes. -/
theorem readDone_less {s t : Strand Q A} {n : Nat} {live ok : Bool}
    {r : Option Bytes → Resumption Q A} (h : s.readDone n live ok r = some t)
    (hfail : ReadWork.Less (readWork s.cleanedUp (.scheduled (r none)))
      (readWork s.cleanedUp s.readPos))
    (hgot : ∀ bytes, live = true →
      ReadWork.Less (readWork s.cleanedUp (.scheduled (r (some bytes))))
        (readWork s.cleanedUp s.readPos) ∨ 0 < n ∧ s.cleanedUp = false) :
    Work.Less t.work s.work := by
  have hnone : Work.Less ((s.goto (.scheduled (r none))).post .readLoop).work s.work :=
    less_of_read (Nat.le_refl _) hfail
  cases live with
  | false =>
    rw [readDone_dead h]
    exact hnone
  | true =>
    rcases readDone_cases h with ⟨got, rest, hlen, hin, rfl⟩ | rfl
    · have hinput : rest.length + n = s.input.length := by
        rw [hin, List.length_append, hlen, Nat.add_comm]
      rcases hgot got rfl with hless | ⟨hn, hopen⟩
      · refine less_of_read (phase_le id rfl ?_) hless
        show rest.length ≤ s.input.length
        omega
      · apply less_of_phase
        simp only [phase, post, goto, isClosed, hopen, Bool.false_eq_true, if_false]
        omega
    · exact hnone

/-- **A bounded step takes work away.** -/
theorem work_step {handlers : Handlers Q A} {repo : Nat → Q → A} {s t : Strand Q A}
    {act : StrandAct} (hinv : SessionInv s) (hact : Bounded s act)
    (h : s.step handlers repo act = some t) : Work.Less t.work s.work := by
  have hclosed := closed_of_reaches hinv.writer (writer_step handlers repo s act t hinv h)
  have hclean := hinv.cleanup
  cases fires_of_step h with
  | sendFrame htask hrun => exact (sendFrame_lessens hinv hclosed htask hrun).less
  | written htask hrun => exact (written_lessens hinv hclosed htask hrun).less
  | cleanup htask =>
    -- the cleanup runs once
    have hcount := List.count_pos_iff.mpr (List.mem_of_getElem? htask)
    have hle := Bool.toNat_le s.isClosed
    have hfirst : s.cleanedUp = false := by
      rw [← Bool.toNat_eq_zero]
      simp only [cleanups] at hclean
      omega
    apply less_of_phase
    simp only [phase, isClosed, (cleanup_spec _).1, hfirst]
    simp [cleanup, take]
  | @readLoop i _ _ r htask hpos =>
    obtain ⟨u, p, hcalls, hu, hnext, _⟩ := resumeReadLoop_goesTo handlers (s.take i) r
    rw [hu] at hclosed ⊢
    refine less_of_read (phase_le hclosed hcalls.cleanedUp
      (Nat.le_of_eq (congrArg List.length hcalls.input))) ?_
    show ReadWork.Less (readWork u.cleanedUp p) _
    rw [hcalls.cleanedUp, hpos]
    exact hnext.less
  | @heartbeat i _ idle r htask hpos =>
    obtain ⟨hphase, hcl, hread, hrest⟩ := resumeHeartbeat_work (s := s.take i) idle hpos
    refine Lessens.less ⟨hphase, hcl, hread, fun heq => ?_⟩
    rw [← restWork_take htask rfl rfl]
    exact hrest heq
  | @headerDone live _ _ hpos hread =>
    refine readDone_less hread (.of_fst ?_) fun bytes hlive => ?_
    · rw [hpos]
      simp only [readWork]
      split
      · omega
      · omega
    · cases hu : s.cleanedUp with
      | false => exact Or.inr ⟨by decide, rfl⟩
      | true => exact Or.inl (.of_fst (by simp [readWork, hpos, hlive]))
  | bodyDone hpos hread =>
    exact readDone_less hread (.of_fst (by simp [readWork, hpos]))
      fun bytes _ => Or.inl (.of_fst (by simp [readWork, hpos]))
  | writeDone =>
    refine Lessens.less ⟨Nat.le_refl _, rfl, Or.inl rfl, fun _ => ?_⟩
    simp only [restWork, countP_post, isSendFrame, isWriteDone, countP_of_writeDone h]
    simp [post]
  | @hbExpires w hpos =>
    refine Lessens.less ⟨Nat.le_refl _, rfl, Or.inl rfl, fun _ => ?_⟩
    have hc : s.writer.session.isClosed = true := hact
    simp only [restWork, countP_post, isSendFrame, isWriteDone, hpos]
    cases w <;> simp [post, hbWork, isClosed, hc]
  | answer hpos =>
    apply less_of_read (phase_le hclosed rfl (Nat.le_refl _))
    rw [hpos]
    exact .right _ (.left _ _ (.single (.await _ _ _)))
  | send => exact hact.elim
  | closeFlag hopen => exact less_of_phase (phase_lt_of_closed hopen rfl rfl rfl)
  | closePost howed =>
    refine Lessens.less ⟨Nat.le_refl _, rfl, Or.inl rfl, fun _ => ?_⟩
    simp only [restWork, countP_post, isSendFrame, isWriteDone, howed]
    simp [post]

/-- The work left is well-founded, so the bounded steps come to an end. -/
theorem settles_of_sessionInv {handlers : Handlers Q A} {repo : Nat → Q → A} {s : Strand Q A}
    (hinv : SessionInv s) : Runs.Settles (step handlers repo) Bounded s :=
  Runs.settles_of_work Work.wellFounded_less
    (fun s act t hinv _ => sessionInv_step handlers repo s act t hinv) work
    (fun _ _ _ hinv hact => work_step hinv hact) hinv

end Strand

end Zem
