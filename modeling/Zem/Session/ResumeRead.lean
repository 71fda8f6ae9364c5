import Zem.Session.Dialogue

/-!
# The wake-up of ReadLoop

`ReadLoop` waits on `m_resume_read` while there is backpressure, and only a cancel ends the wait.
Two places issue it: the completion handler of `async_write`, and the cleanup of `Shutdown`.

* `NoLostWakeup` — a wait has its cancel issued, or to come.
* `LateReturn` — the step that begins a wait after the cleanup has run: the loop never looks at
  `m_is_closed`, and closing does not lift the backpressure.
* `noLostWakeup_iff`, `lost_step_iff` — the first holds unless a step of the second kind is taken.
* `no_lost_wakeup_iff` — the exact condition for every run.
* `stranded_step`, `stranded_run` — without a write in flight such a wait never ends.
* `answered_run`, `failAndAnswer_exec` — a client pings and does not read; a write fails while its
  login waits for the database.
* `late_return_strands_reader` — that run gets there.
-/

set_option autoImplicit false

namespace Zem

namespace Strand

variable {Q A : Type}

/-! ## The property -/

/-- `ReadLoop` is suspended on `m_resume_read`; from the cancel on, its resumption is scheduled. -/
def SuspendedOnResume (s : Strand Q A) : Prop :=
  s.readPos = .resumeWait ∨ s.readPos = .scheduled .woken

def CancelIssued (s : Strand Q A) : Prop := s.readPos = .scheduled .woken ∧ .readLoop ∈ s.queue

/-- The cleanup is in the queue, or the thread that closed the session is about to post it. -/
def CleanupPending (s : Strand Q A) : Prop := s.owed = true ∨ .cleanup ∈ s.queue

def WriteInFlight (s : Strand Q A) : Prop :=
  s.isClosed = false ∧ s.backpressure = true ∧ s.writer.outstanding ≠ []

def NoLostWakeup (s : Strand Q A) : Prop :=
  SuspendedOnResume s → CancelIssued s ∨ CleanupPending s ∨ WriteInFlight s

/-- The step takes `ReadLoop` to the top of its loop, after the cleanup has run and while there
    is still backpressure. -/
def LateReturn (handlers : Handlers Q A) (s : Strand Q A) (act : StrandAct) : Prop :=
  ∃ i raced idle r, act = .run i raced idle ∧ s.queue[i]? = some .readLoop ∧
    s.readPos = .scheduled r ∧ EndsIteration handlers s.writer.session r ∧
    s.cleanedUp = true ∧ s.backpressure = true

/-! ## One step -/

/-- The wait that nothing ends: it has begun, and the cleanup has run. -/
def Lost (s : Strand Q A) : Prop := s.readPos = .resumeWait ∧ s.cleanedUp = true

theorem noLostWakeup_iff {s : Strand Q A} (h : SessionInv s) : NoLostWakeup s ↔ ¬ Lost s := by
  have hclean := h.cleanup
  have hle := Bool.toNat_le s.isClosed
  simp only [cleanups] at hclean
  constructor
  · rintro hn ⟨hp, hu⟩
    rw [hu, Bool.toNat_true] at hclean
    rcases hn (Or.inl hp) with ⟨hp', _⟩ | (ho | hq) | ⟨ho, _, _⟩
    · rw [hp] at hp'
      cases hp'
    · rw [ho, Bool.toNat_true] at hclean
      omega
    · have := List.count_pos_iff.mpr hq
      omega
    · rw [ho, Bool.toNat_false] at hclean
      omega
  · rintro hlost (hp | hp)
    · have hu : s.cleanedUp = false := by
        rw [← Bool.not_eq_true]
        exact fun hu => hlost ⟨hp, hu⟩
      cases hc : s.isClosed with
      | false =>
        have hb := h.waiting hp hc
        exact Or.inr (Or.inr ⟨hc, hb, outstanding_of_backpressure h.writer hc hb⟩)
      | true =>
        refine Or.inr (Or.inl ?_)
        rw [hc, hu, Bool.toNat_true, Bool.toNat_false] at hclean
        cases ho : s.owed with
        | true => exact Or.inl ho
        | false =>
          rw [ho, Bool.toNat_false] at hclean
          exact Or.inr (List.count_pos_iff.mp (by omega))
    · refine Or.inl ⟨hp, List.count_pos_iff.mp ?_⟩
      rw [h.reader, hp]
      exact Nat.one_pos

/-- **A wait gets lost exactly in a late return.** -/
theorem lost_step_iff {handlers : Handlers Q A} {repo : Nat → Q → A} {s t : Strand Q A}
    {act : StrandAct} (hinv : SessionInv s) (hs : ¬ Lost s)
    (h : s.step handlers repo act = some t) : Lost t ↔ LateReturn handlers s act := by
  rcases step_cases hinv h with ⟨hno, hk⟩ | ⟨i, raced, idle, rfl, hi, rfl⟩ |
    ⟨i, raced, idle, r, rfl, hi, hr, _, u, p, hcalls, rfl, _, hwait⟩
  · constructor
    · rintro ⟨hp, hu⟩
      exact absurd ⟨(hk.waiting hp).1, hk.cleanedUp ▸ hu⟩ hs
    · rintro ⟨i, raced, idle, _, rfl, hi, _⟩
      exact absurd hi (hno i raced idle rfl)
  · constructor
    · rintro ⟨hp, _⟩
      exact absurd hp (cleanup_spec (s.take i)).2.2.2
    · rintro ⟨i', _, _, _, he, hi', _⟩
      cases he
      rw [hi] at hi'
      cases hi'
  · have hu : (u.goto p).cleanedUp = s.cleanedUp := hcalls.cleanedUp
    constructor
    · rintro ⟨hp, hup⟩
      obtain ⟨hends, hb⟩ := hwait.mp hp
      exact ⟨i, raced, idle, r, rfl, hi, hr, hends, hu ▸ hup, hb⟩
    · rintro ⟨i', _, _, r', he, _, hr', hends, hup, hb⟩
      cases he
      rw [hr] at hr'
      cases hr'
      exact ⟨hwait.mpr ⟨hends, hb⟩, hu.trans hup⟩

/-! ## Every run -/

/-- **No lost wake-up, exactly when no step is a late return.**  For every order of tasks and
    events. -/
theorem no_lost_wakeup_iff {handlers : Handlers Q A} {repo : Nat → Q → A} {input : Bytes}
    {acts : List StrandAct} {s : Strand Q A}
    (h : Runs.exec (step handlers repo) (init input) acts = some s) :
    Runs.Visits (step handlers repo) NoLostWakeup (init input) acts ↔
      Runs.Takes (step handlers repo) (fun s act => ¬ LateReturn handlers s act) (init input)
        acts := by
  refine Runs.visits_iff_takes (sessionInv_step handlers repo) ?_ (sessionInv_init input) ?_ h
  · intro s act t hinv hs hstep
    rw [noLostWakeup_iff (sessionInv_step handlers repo s act t hinv hstep),
      lost_step_iff hinv ((noLostWakeup_iff hinv).mp hs) hstep]
  · rw [noLostWakeup_iff (sessionInv_init input)]
    rintro ⟨hp, _⟩
    cases hp

/-! ## A wait without end -/

/-- The wait is lost, and no write is left whose completion could cancel it. -/
structure Stranded (s : Strand Q A) : Prop where
  waits : s.readPos = .resumeWait
  cleanedUp : s.cleanedUp = true
  closed : s.isClosed = true
  idle : s.writer.outstanding = []

/-- A closed write path with no write outstanding stays so. -/
theorem idle_of_reaches {w w' : Writer} (hinv : WriterInv w)
    (h : Runs.Reaches Writer.step w w') (hc : w.session.isClosed = true)
    (hidle : w.outstanding = []) : w'.outstanding = [] := by
  refine (h.invariant (I := fun v : Writer =>
    WriterInv v ∧ v.session.isClosed = true ∧ v.outstanding = []) ?_ ⟨hinv, hc, hidle⟩).2.2
  rintro v act v' ⟨hv, hcv, hiv⟩ hstep
  refine ⟨writerInv_step v act v' hv hstep,
    (closed_step v act v' hcv hv.accounting.bounded hstep).1, ?_⟩
  cases act with
  | sendFrame a raced =>
    rcases Writer.sendFrame_step hv.accounting.bounded hstep with ⟨_, rfl⟩ | ⟨ho, _⟩ | ⟨ho, _⟩
    · exact hiv
    · rw [hcv] at ho
      cases ho
    · rw [hcv] at ho
      cases ho
  | writeDone b ec =>
    have hb := (Writer.writeDone_step hstep).1
    rw [hiv] at hb
    cases hb
  | shutdown =>
    rw [Writer.shutdown_step hstep]
    exact hiv
  | setPeerApiVersion v =>
    rw [Writer.setPeerApiVersion_step hstep]
    exact hiv

theorem stranded_step (handlers : Handlers Q A) (repo : Nat → Q → A) (s : Strand Q A)
    (act : StrandAct) (t : Strand Q A) (hs : SessionInv s ∧ Stranded s)
    (h : s.step handlers repo act = some t) : SessionInv t ∧ Stranded t := by
  obtain ⟨hinv, hw, hu, hc, hidle⟩ := hs
  have hreach := writer_step handlers repo s act t hinv h
  -- nothing is left to run that could end the wait
  have hclean := hinv.cleanup
  simp only [cleanups, hu, hc, Bool.toNat_true] at hclean
  have howed : s.owed = false := by
    cases ho : s.owed with
    | false => rfl
    | true =>
      rw [ho, Bool.toNat_true] at hclean
      omega
  have hnone : .cleanup ∉ s.queue := fun hq => by
    have := List.count_pos_iff.mpr hq
    omega
  suffices hkeep : t.readPos = .resumeWait ∧ t.cleanedUp = true from
    ⟨sessionInv_step handlers repo s act t hinv h, hkeep.1, hkeep.2,
      closed_of_reaches hinv.writer hreach hc, idle_of_reaches hinv.writer hreach hc hidle⟩
  cases fires_of_step h with
  | @sendFrame i raced idle a _ _ hrun =>
    have hsend : s.writer.session.sendFrame a raced = (s.writer.session, []) := by
      simp only [TCPSession.sendFrame, hc, if_true]
    simp only [runTask, callWriter, Writer.call, take, hsend] at hrun
    cases hrun
    exact ⟨hw, hu⟩
  | written _ hrun =>
    simp only [callWriter, Writer.call, take, hidle] at hrun
    cases hrun
  | cleanup htask => exact absurd (List.mem_of_getElem? htask) hnone
  | readLoop _ hp =>
    rw [hw] at hp
    cases hp
  | @heartbeat i _ idle r _ _ =>
    obtain ⟨u, p, hcalls, hup⟩ := resumeHeartbeat_spec (s.take i) idle r
    rw [hup]
    exact ⟨hcalls.readPos.trans hw, hcalls.cleanedUp.trans hu⟩
  | headerDone hp _ =>
    rw [hw] at hp
    cases hp
  | bodyDone hp _ =>
    rw [hw] at hp
    cases hp
  | writeDone hb =>
    rw [hidle] at hb
    cases hb
  | hbExpires _ => exact ⟨hw, hu⟩
  | answer hp =>
    rw [hw] at hp
    cases hp
  | send => exact ⟨hw, hu⟩
  | closeFlag ho =>
    rw [hc] at ho
    cases ho
  | closePost ho =>
    rw [howed] at ho
    cases ho

/-- **A stranded `ReadLoop` stays so, whatever happens.** -/
theorem stranded_run {handlers : Handlers Q A} {repo : Nat → Q → A} {acts : List StrandAct}
    {s t : Strand Q A} (hinv : SessionInv s) (hs : Stranded s)
    (h : Runs.exec (step handlers repo) s acts = some t) : Stranded t :=
  (Runs.exec_invariant (stranded_step handlers repo) ⟨hinv, hs⟩ h).2

/-! ## A late return -/

def pingFrame : Bytes := [0, 0, 0, 0, 0, 0, 0, 0, 0, 1]

/-- A login for the id `a` with the password `b`. -/
def loginFrame : Bytes := [0, 0, 0, 2, 0, 0, 0, 10, 0, 1, 0, 0, 0, 1, 97, 0, 0, 0, 1, 98]

/-- What the client sends: pings, and a login behind them. -/
def pipelined (pings : Nat) : Bytes := (List.replicate pings pingFrame).flatten ++ loginFrame

def pongArgs : SendArgs := ⟨.pong, none, 1⟩

def firstBatch : Batch := gather [.ofArgs pongArgs] .empty

/-- Both coroutines begin their first wait. -/
def startBoth : List StrandAct := [.run 0 false 0, .run 0 false 0]

/-- A ping is read, `ReadLoop` posts the pong, and the pong is queued. -/
def answerPing : List StrandAct := [.readDone true, .run 0 false 0, .run 0 false 0]

/-- The login is read and waits for the database; the first write fails, and the cleanup runs; the
    database answers, and the two coroutines run. -/
def failAndAnswer : List StrandAct :=
  [.readDone true, .run 0 false 0, .readDone true, .run 0 false 0, .writeDone firstBatch true,
    .run 0 false 0, .run 0 false 0, .answer, .run 0 false 0, .run 0 false 0]

def lateReturnRun (pings : Nat) : List StrandAct :=
  startBoth ++ (List.replicate pings answerPing).flatten ++ failAndAnswer

/-- Every login is for the right password. -/
def rightPassword : Nat → Bytes → DbOutcome := fun _ _ => .leased (.row .ok [98])

/-- `n` pongs queued, the first of them on its way to a client that does not read. -/
def ponged (n : Nat) : Writer :=
  { session :=
      { isWriting := true
        writeQueue := List.replicate n (.ofArgs pongArgs)
        pendingBytes := TCPHeaderConv.size * n
        backpressure := decide (TCPSessionLimit.highWater < TCPHeaderConv.size * n)
        peerApiVersion := 1
        isClosed := false }
    outstanding := [firstBatch]
    accepted := List.replicate n pongArgs.frame
    started := 1
    written := [] }

/-- `ReadLoop` waits for its first header. -/
def reading (input : Bytes) : Strand Bytes DbOutcome :=
  { (init input : Strand Bytes DbOutcome) with
    queue := []
    readPos := .headerRead true
    hbPos := .waiting .interval }

/-- `ReadLoop` has answered `n` pings and waits for the next header. -/
def answered (n : Nat) (input : Bytes) : Strand Bytes DbOutcome :=
  { reading input with writer := ponged n }

/-- The handler of the login asks the database for `a`, to compare the answer with `b`. -/
def asking (n : Nat) : Strand Bytes DbOutcome :=
  { answered n [] with
    readPos := .handlerWait [97] fun outcome =>
      .perform (.send (loginResponse 1 (loginResult outcome [98]))) (.ret ()) }

/-- After the failed write and the cleanup. -/
def cleanedUpAfter (n : Nat) (queue : List Task) (p : ReadPos Bytes DbOutcome) :
    Strand Bytes DbOutcome :=
  { answered n [] with
    writer := (ponged n).afterError firstBatch
    queue := queue
    readPos := p
    hbPos := .finished
    asked := 1
    cleanedUp := true }

theorem readLoopTop_wait {s : Strand Q A} (h : s.backpressure = true) :
    s.readLoopTop = s.goto .resumeWait := by
  simp only [readLoopTop, h, if_true]

theorem readLoopTop_read {s : Strand Q A} (h : s.backpressure = false) :
    s.readLoopTop = s.goto (.headerRead (!s.cleanedUp)) := by
  simp [readLoopTop, h]

/-- A read on an open socket gets the next bytes. -/
theorem readDone_append {s : Strand Q A} {got rest : Bytes} (h : s.input = got ++ rest)
    (r : Option Bytes → Resumption Q A) :
    s.readDone got.length true true r =
      some (({ s with input := rest }.goto (.scheduled (r (some got)))).post .readLoop) := by
  have hread : asyncRead got.length false s.input = some (got, rest) := by
    simp [asyncRead, h]
  simp only [readDone, if_true, Bool.not_true, hread]

theorem ponged_pushed (n : Nat) :
    (ponged n).session.pushed pongArgs false = (ponged (n + 1)).session := by
  have hpend : (ponged n).session.pendingBytes + (WriteData.ofArgs pongArgs).totalBytes =
      TCPHeaderConv.size * (n + 1) := rfl
  have hhigh : (decide (TCPSessionLimit.highWater < TCPHeaderConv.size * n) ||
      decide (TCPHeaderConv.size * (n + 1) > TCPSessionLimit.highWater)) =
        decide (TCPSessionLimit.highWater < TCPHeaderConv.size * (n + 1)) := by
    rw [← Bool.decide_or, decide_eq_decide, Nat.mul_succ]
    omega
  simp only [TCPSession.pushed, hpend]
  simp only [ponged, hhigh, List.replicate_succ']

/-- A pong joins the queue behind the one in flight. -/
theorem ponged_succ {n : Nat} (h : TCPHeaderConv.size * (n + 1) ≤ TCPSessionLimit.hardCap) :
    (ponged n).call (.sendFrame pongArgs false) = some (ponged (n + 1), []) := by
  have hpend : (ponged n).session.pendingBytes + (WriteData.ofArgs pongArgs).totalBytes =
      TCPHeaderConv.size * (n + 1) := rfl
  have hcap : TCPSessionLimit.hardCap ≤ sizeMax := hardCap_le_sizeMax
  have hsend : (ponged n).session.sendFrame pongArgs false = ((ponged (n + 1)).session, []) := by
    rcases TCPSession.sendFrame_cases pongArgs false (s := (ponged n).session) (by omega) with
      ⟨hc, _⟩ | ⟨_, hbig | hbig, _⟩ | ⟨_, _, _, hbig, _⟩ | ⟨_, _, _, ⟨_, hr⟩ | ⟨hw, _⟩ | ⟨hw, _⟩⟩
    · cases hc
    · exact absurd hbig (by decide)
    · omega
    · omega
    · rw [hr, ponged_pushed]
    · cases hw
    · cases hw
  have hgrown : (ponged (n + 1)).session.writeQueue.length ≠
      (ponged n).session.writeQueue.length := by
    simp [ponged]
  simp only [Writer.call, hsend, if_neg hgrown]
  simp only [Writer.performAll, List.foldl_nil, ponged, List.replicate_succ']

section

variable {handlers : Handlers Bytes DbOutcome} {repo : Nat → Bytes → DbOutcome}

/-- The first ping: its pong is written at once. -/
theorem answered_one (rest : Bytes) :
    Runs.exec (step handlers repo) (init (pingFrame ++ rest)) (startBoth ++ answerPing) =
      some (answered 1 rest) := by
  have hstart : Runs.exec (step handlers repo) (init (pingFrame ++ rest)) startBoth =
      some (reading (pingFrame ++ rest)) := rfl
  have hread : (reading (pingFrame ++ rest)).step handlers repo (.readDone true) =
      some { reading rest with
        queue := [.readLoop], readPos := .scheduled (.header (some pingFrame)) } :=
    readDone_append (s := reading (pingFrame ++ rest)) rfl _
  apply Runs.exec_trans hstart
  rw [answerPing, Runs.exec_cons hread]
  rfl

/-- One more ping: its pong is posted, `ReadLoop` goes on to `p`, and the pong is queued. -/
theorem answerPing_exec {n : Nat} (hcap : TCPHeaderConv.size * (n + 1) ≤ TCPSessionLimit.hardCap)
    (rest : Bytes) {p : ReadPos Bytes DbOutcome}
    (htop : { answered n rest with queue := [.sendFrame pongArgs] }.readLoopTop =
      ({ answered n rest with queue := [.sendFrame pongArgs] } : Strand Bytes DbOutcome).goto p) :
    Runs.exec (step handlers repo) (answered n (pingFrame ++ rest)) answerPing =
      some { answered (n + 1) rest with readPos := p } := by
  have hread : (answered n (pingFrame ++ rest)).step handlers repo (.readDone true) =
      some { answered n rest with
        queue := [.readLoop], readPos := .scheduled (.header (some pingFrame)) } :=
    readDone_append (s := answered n (pingFrame ++ rest)) rfl _
  have hpong : ({ answered n rest with
      queue := [.readLoop], readPos := .scheduled (.header (some pingFrame)) } :
      Strand Bytes DbOutcome).step handlers repo (.run 0 false 0) =
      some { answered n rest with queue := [.sendFrame pongArgs], readPos := p } :=
    congrArg some htop
  have hcall : (answered n rest).writer.call (.sendFrame pongArgs false) =
      some (ponged (n + 1), []) := ponged_succ hcap
  have hsend : ({ answered n rest with queue := [.sendFrame pongArgs], readPos := p } :
      Strand Bytes DbOutcome).step handlers repo (.run 0 false 0) =
      some { answered (n + 1) rest with readPos := p } := by
    simp only [step, List.getElem?_cons_zero, runTask, callWriter, take, hcall]
    rfl
  rw [answerPing, Runs.exec_cons hread, Runs.exec_cons hpong, Runs.exec_single hsend]

/-- There is no backpressure yet. -/
theorem answered_succ {n : Nat} (h : TCPHeaderConv.size * n ≤ TCPSessionLimit.highWater)
    (rest : Bytes) :
    Runs.exec (step handlers repo) (answered n (pingFrame ++ rest)) answerPing =
      some (answered (n + 1) rest) := by
  have hcap : TCPHeaderConv.size * (n + 1) ≤ TCPSessionLimit.hardCap := by
    have : TCPSessionLimit.highWater + TCPHeaderConv.size ≤ TCPSessionLimit.hardCap := by decide
    rw [Nat.mul_succ]
    omega
  exact answerPing_exec hcap rest (readLoopTop_read (decide_eq_false (by omega)))

/-- There is backpressure, and `ReadLoop` waits. -/
theorem answered_wait {n : Nat} (h : TCPSessionLimit.highWater < TCPHeaderConv.size * n)
    (hcap : TCPHeaderConv.size * (n + 1) ≤ TCPSessionLimit.hardCap) (rest : Bytes) :
    Runs.exec (step handlers repo) (answered n (pingFrame ++ rest)) answerPing =
      some { answered (n + 1) rest with readPos := .resumeWait } :=
  answerPing_exec hcap rest (readLoopTop_wait (decide_eq_true h))

theorem answered_run (rest : Bytes) : ∀ k n : Nat,
    TCPHeaderConv.size * (n + k) ≤ TCPSessionLimit.highWater + TCPHeaderConv.size →
    Runs.exec (step handlers repo) (answered n ((List.replicate k pingFrame).flatten ++ rest))
      (List.replicate k answerPing).flatten = some (answered (n + k) rest)
  | 0, _, _ => rfl
  | k + 1, n, hk => by
    have hlow : TCPHeaderConv.size * n ≤ TCPSessionLimit.highWater := by
      unfold TCPHeaderConv.size at hk ⊢
      omega
    rw [show n + (k + 1) = n + 1 + k by omega] at hk ⊢
    simp only [List.replicate_succ, List.flatten_cons, List.append_assoc]
    exact Runs.exec_trans (answered_succ hlow _) (answered_run rest k (n + 1) hk)

end

/-- The login waits for the database. -/
theorem asking_exec (n : Nat) :
    Runs.exec (step makeSessionHandlers rightPassword) (answered n loginFrame)
      (failAndAnswer.take 4) = some (asking n) := by
  have hbody : Runs.exec (step makeSessionHandlers rightPassword) (answered n loginFrame)
      (failAndAnswer.take 3) = some { answered n [] with
        queue := [.readLoop]
        readPos := .scheduled (.body .login 1 (some (loginFrame.drop TCPHeaderConv.size))) } := rfl
  have htask : loginTask 1 (loginFrame.drop TCPHeaderConv.size) = .await [97] fun outcome =>
      .perform (.send (loginResponse 1 (loginResult outcome [98]))) (.ret ()) :=
    loginTask_some (show LoginCodec.decodeRequest 1 _ = some ⟨[97], [98]⟩ from rfl)
  exact Runs.exec_trans hbody
    (Runs.exec_single (congrArg (fun c => some (runHandler (answered n []) c)) htask))

/-- With enough pings before it, the login returns to a loop that waits, after the cleanup. -/
theorem failAndAnswer_exec {n : Nat} (h : TCPSessionLimit.highWater < TCPHeaderConv.size * n) :
    Runs.exec (step makeSessionHandlers rightPassword) (answered n loginFrame) failAndAnswer =
      some (cleanedUpAfter n [.sendFrame (loginResponse 1 .success)] .resumeWait) := by
  have hanswer : Runs.exec (step makeSessionHandlers rightPassword) (asking n)
      [.writeDone firstBatch true, .run 0 false 0, .run 0 false 0, .answer, .run 0 false 0] =
      some (cleanedUpAfter n [.readLoop] (.scheduled (.answered
        (.perform (.send (loginResponse 1 .success)) (.ret ()))))) := rfl
  have hreturn : (cleanedUpAfter n [.readLoop] (.scheduled (.answered
      (.perform (.send (loginResponse 1 .success)) (.ret ()))))).step makeSessionHandlers
        rightPassword (.run 0 false 0) =
      some (cleanedUpAfter n [.sendFrame (loginResponse 1 .success)] .resumeWait) :=
    congrArg some (readLoopTop_wait (s := cleanedUpAfter n
      [.sendFrame (loginResponse 1 .success)] .finished) (decide_eq_true h))
  exact Runs.exec_trans (asking_exec n) (Runs.exec_trans hanswer (Runs.exec_single hreturn))

theorem lateReturnRun_exec {k : Nat}
    (hle : TCPHeaderConv.size * (1 + k) ≤ TCPSessionLimit.highWater + TCPHeaderConv.size)
    (hlt : TCPSessionLimit.highWater < TCPHeaderConv.size * (1 + k)) :
    Runs.exec (step makeSessionHandlers rightPassword) (init (pipelined (k + 1)))
        (lateReturnRun (k + 1)) =
      some (cleanedUpAfter (1 + k) [.sendFrame (loginResponse 1 .success)] .resumeWait) := by
  simp only [pipelined, lateReturnRun, List.replicate_succ, List.flatten_cons, List.append_assoc]
  rw [← List.append_assoc startBoth]
  exact Runs.exec_trans (answered_one _)
    (Runs.exec_trans (answered_run loginFrame k 1 hle) (failAndAnswer_exec hlt))

/-- The run is one of a strand in its order. -/
theorem lateReturnRun_inOrder (pings : Nat) : ∀ act ∈ lateReturnRun pings, InOrder act := by
  intro act h
  simp only [lateReturnRun, List.mem_append, List.mem_flatten, List.mem_replicate] at h
  rcases h with (h | ⟨acts, ⟨_, rfl⟩, h⟩) | h
  · exact (by simp [startBoth, InOrder] : ∀ act ∈ startBoth, InOrder act) act h
  · exact (by simp [answerPing, InOrder] : ∀ act ∈ answerPing, InOrder act) act h
  · exact (by simp [failAndAnswer, InOrder] : ∀ act ∈ failAndAnswer, InOrder act) act h

/-- The pings whose pongs exceed `HighWater`. -/
def pingsOverHighWater : Nat := TCPSessionLimit.highWater / TCPHeaderConv.size + 1

/-- The write fails; the cleanup runs, and then `ReadLoop`. -/
def failAndWake : List StrandAct :=
  [.writeDone firstBatch true, .run 0 false 0, .run 0 false 0, .run 0 false 0, .run 0 false 0]

/-- Pings are answered, and one more behind the last that `HighWater` allows. -/
def pongRun (pings : Nat) : List StrandAct :=
  startBoth ++ answerPing ++ (List.replicate pings answerPing).flatten ++ answerPing

theorem pongRun_exec {handlers : Handlers Bytes DbOutcome} {repo : Nat → Bytes → DbOutcome}
    {k : Nat}
    (hle : TCPHeaderConv.size * (1 + k) ≤ TCPSessionLimit.highWater + TCPHeaderConv.size)
    (hlt : TCPSessionLimit.highWater < TCPHeaderConv.size * (1 + k))
    (hcap : TCPHeaderConv.size * (1 + k + 1) ≤ TCPSessionLimit.hardCap) :
    Runs.exec (step handlers repo) (init ((List.replicate (k + 1 + 1) pingFrame).flatten))
        (pongRun k) =
      some { answered (1 + k + 1) [] with readPos := .resumeWait } := by
  have hinput : (List.replicate (k + 1 + 1) pingFrame).flatten =
      pingFrame ++ ((List.replicate k pingFrame).flatten ++ (pingFrame ++ [])) := by
    rw [List.replicate_succ, List.flatten_cons, List.replicate_succ', List.flatten_append]
    rfl
  rw [hinput]
  exact Runs.exec_trans (Runs.exec_trans (answered_one _) (answered_run _ k 1 hle))
    (answered_wait hlt hcap [])

/-- The rule at a run in which `ReadLoop` waits on `m_resume_read`, and the cleanup wakes it. -/
theorem no_lost_wakeup_iff_woken :
    ∃ s t, Runs.exec (step makeSessionHandlers rightPassword)
        (init ((List.replicate (pingsOverHighWater + 1) pingFrame).flatten))
        (pongRun (TCPSessionLimit.highWater / TCPHeaderConv.size)) = some s ∧
      s.backpressure = true ∧ s.readPos = .resumeWait ∧
      Runs.exec (step makeSessionHandlers rightPassword) s failAndWake = some t ∧
      t.readPos = .headerRead false ∧
      (Runs.Visits (step makeSessionHandlers rightPassword) NoLostWakeup
          (init ((List.replicate (pingsOverHighWater + 1) pingFrame).flatten))
          (pongRun (TCPSessionLimit.highWater / TCPHeaderConv.size) ++ failAndWake) ↔
        Runs.Takes (step makeSessionHandlers rightPassword)
          (fun s act => ¬ LateReturn makeSessionHandlers s act)
          (init ((List.replicate (pingsOverHighWater + 1) pingFrame).flatten))
          (pongRun (TCPSessionLimit.highWater / TCPHeaderConv.size) ++ failAndWake)) := by
  have hwait := @pongRun_exec makeSessionHandlers rightPassword
    (TCPSessionLimit.highWater / TCPHeaderConv.size) (by decide) (by decide) (by decide)
  have hwake : ∀ n, ∃ t, Runs.exec (step makeSessionHandlers rightPassword)
      { answered n [] with readPos := .resumeWait } failAndWake = some t ∧
      t.readPos = .headerRead false := fun n => ⟨_, rfl, rfl⟩
  have hhigh : TCPSessionLimit.highWater <
      TCPHeaderConv.size * (1 + TCPSessionLimit.highWater / TCPHeaderConv.size + 1) := by decide
  have hback :
      (ponged (1 + TCPSessionLimit.highWater / TCPHeaderConv.size + 1)).session.backpressure =
        true := decide_eq_true hhigh
  obtain ⟨t, ht, hpos⟩ := hwake (1 + TCPSessionLimit.highWater / TCPHeaderConv.size + 1)
  exact ⟨_, t, hwait, hback, rfl, ht, hpos, no_lost_wakeup_iff (Runs.exec_trans hwait ht)⟩

/-- **A handler that returns after the cleanup strands `ReadLoop`.**  The pongs that a client does
    not read raise the backpressure; their write fails and the cleanup runs while a login waits
    for the database; the loop then begins a wait that nothing is left to end, in whatever
    follows. -/
theorem late_return_strands_reader :
    ∃ s, Runs.exec (step makeSessionHandlers rightPassword) (init (pipelined pingsOverHighWater))
        (lateReturnRun pingsOverHighWater) = some s ∧
      (∀ act ∈ lateReturnRun pingsOverHighWater, InOrder act) ∧ ¬ NoLostWakeup s ∧
      ∀ acts t, Runs.exec (step makeSessionHandlers rightPassword) s acts = some t →
        t.readPos = .resumeWait := by
  have hrun := lateReturnRun_exec (k := TCPSessionLimit.highWater / TCPHeaderConv.size)
    (by decide) (by decide)
  have hinv := sessionInv_run hrun
  have hstranded : Stranded (cleanedUpAfter (1 + TCPSessionLimit.highWater / TCPHeaderConv.size)
      [.sendFrame (loginResponse 1 .success)] .resumeWait) := ⟨rfl, rfl, rfl, rfl⟩
  refine ⟨_, hrun, lateReturnRun_inOrder _, fun hn => ?_,
    fun acts t ht => (stranded_run hinv hstranded ht).waits⟩
  exact (noLostWakeup_iff hinv).mp hn ⟨rfl, rfl⟩

end Strand

end Zem
