import Zem.Session.Footprint

/-!
# No reply is lost

`Dialogue.lean` bounds what a session says by what its input asks for.  While the session is open
and no read has failed, the two are equal.

* `Says`, `resumeReadLoop_speaks` — the frames that `ReadLoop` posts between two waits, if it does
  not close the session.
* `Says.future` — they are the next ones to come.
* `said_step` — accepted, posted and to come: no step loses a frame, unless it closes the session
  or fails a read.
* `Answering`, `answering_run` — so what is said is the whole dialogue.
-/

set_option autoImplicit false

namespace Zem

/-- A header that is not rejected has a version that its service supports. -/
theorem TCPSession.onHeader_supported {h : TCPHeaderConv} {s : TCPSession}
    (hok : (s.onHeader h).2 ≠ .reject) : ∃ t, TCPServiceType.ofCode? h.serviceType = some t ∧
      ApiVersion.isSupportedFor t h.apiVersion = true := by
  unfold onHeader at hok
  split at hok
  · exact absurd rfl hok
  rename_i t ht
  split at hok
  · exact absurd rfl hok
  rename_i hv
  refine ⟨t, ht, ?_⟩
  cases hs : ApiVersion.isSupportedFor t h.apiVersion with
  | true => rfl
  | false => simp [hs] at hv

namespace Strand

variable {Q A : Type}

/-! ## ReadLoop between two waits -/

/-- The peer's version is as it was, or a service supports it. -/
def PeerKept (s t : Strand Q A) : Prop :=
  t.writer.session.peerApiVersion = s.writer.session.peerApiVersion ∨
    ∃ service, ApiVersion.isSupportedFor service t.writer.session.peerApiVersion = true

/-- With a resumption, and without closing the session, `ReadLoop` posts frames and goes to a wait,
    or to the top of its loop. -/
inductive Says (handlers : Handlers Q A) (session : TCPSession) :
    Resumption Q A → List Frame → Option (ReadPos Q A) → Prop where
  | start : Says handlers session .start [] none
  | woken (live : Bool) : Says handlers session .woken [] (some (.headerRead live))
  | ping {bytes : Bytes} (header : (session.onHeader (TCPHeaderConv.ofBytes bytes)).2 = .ping) :
    Says handlers session (.header (some bytes))
      [⟨.pong, (TCPHeaderConv.ofBytes bytes).apiVersion, []⟩] none
  | pong {bytes : Bytes} (header : (session.onHeader (TCPHeaderConv.ofBytes bytes)).2 = .pong) :
    Says handlers session (.header (some bytes)) [] none
  | readBody {bytes : Bytes} {t : TCPServiceType} {v : UInt16} {n : Nat}
      (header : (session.onHeader (TCPHeaderConv.ofBytes bytes)).2 = .readBody t v n)
      (live : Bool) : Says handlers session (.header (some bytes)) [] (some (.bodyRead t v n live))
  | returned {r : Resumption Q A} {c : Coroutine Q A ConnCall Unit}
      (handler : resumedHandler handlers r = some c) (stop : c.segment.2 = .returned ())
      (stays : ConnCall.close ∉ c.segment.1) : Says handlers session r (sends c.segment.1) none
  | asked {r : Resumption Q A} {c : Coroutine Q A ConnCall Unit} {q : Q}
      {k : A → Coroutine Q A ConnCall Unit} (handler : resumedHandler handlers r = some c)
      (stop : c.segment.2 = .suspended q k) (stays : ConnCall.close ∉ c.segment.1) :
      Says handlers session r (sends c.segment.1) (some (.handlerWait q k))

/-- From `s` to `t` with the resumption `r`. -/
inductive Said (handlers : Handlers Q A) (s : Strand Q A) (r : Resumption Q A) :
    Strand Q A → Prop where
  | top {u : Strand Q A} {fs : List Frame} (spoken : Says handlers s.writer.session r fs none)
      (posts : Posts s u fs) (peer : PeerKept s u) : Said handlers s r u.readLoopTop
  | wait {u : Strand Q A} {fs : List Frame} {p : ReadPos Q A}
      (spoken : Says handlers s.writer.session r fs (some p)) (posts : Posts s u fs)
      (peer : PeerKept s u) : Said handlers s r (u.goto p)

theorem stop_not_open (s : Strand Q A) : s.stop.isClosed ≠ false := by
  intro h
  have hclosed : s.stop.isClosed = true := isClosed_shutdown s
  rw [hclosed] at h
  cases h

theorem said_runHandler {handlers : Handlers Q A} {s : Strand Q A} {r : Resumption Q A}
    {c : Coroutine Q A ConnCall Unit} (hc : resumedHandler handlers r = some c)
    (hopen : (s.runHandler c).isClosed = false) : Said handlers s r (s.runHandler c) := by
  obtain ⟨hpost, hstay⟩ := posts_performConn c.segment.1 s
  have hpeer : (c.segment.1.foldl performConn s).isClosed = false →
      PeerKept s (c.segment.1.foldl performConn s) := fun ho => by
    rw [foldl_performConn_open _ ho]
    exact Or.inl rfl
  unfold runHandler at hopen ⊢
  simp only at hopen ⊢
  split at hopen
  · rename_i hend
    exact .top (.returned hc hend (hstay hopen)) hpost (hpeer hopen)
  · exact absurd hopen (stop_not_open _)
  · rename_i hend
    exact .wait (.asked hc hend (hstay hopen)) hpost (hpeer hopen)

/-- **`ReadLoop` between two waits**, with the frames it posts. -/
theorem resumeReadLoop_speaks {handlers : Handlers Q A} {s : Strand Q A} {r : Resumption Q A}
    (hopen : (s.resumeReadLoop handlers r).isClosed = false) :
    Said handlers s r (s.resumeReadLoop handlers r) := by
  cases r with
  | start => exact .top .start (.refl s) (Or.inl rfl)
  | woken => exact .wait (.woken _) (.refl s) (Or.inl rfl)
  | header bytes =>
    cases bytes with
    | none => exact absurd hopen (stop_not_open _)
    | some bytes =>
      have hset : Posts s (s.setSession
          (s.writer.session.onHeader (TCPHeaderConv.ofBytes bytes)).1) [] := by
        refine ⟨rfl, rfl, rfl, rfl, fun h => ⟨?_, (List.append_nil _).symm⟩⟩
        rw [TCPSession.onHeader_members] at h
        exact h
      have hversion := TCPSession.onHeader_peerApiVersion
        (h := TCPHeaderConv.ofBytes bytes) (s := s.writer.session)
      have hpeer : (s.writer.session.onHeader (TCPHeaderConv.ofBytes bytes)).2 ≠ .reject →
          PeerKept s (s.setSession
            (s.writer.session.onHeader (TCPHeaderConv.ofBytes bytes)).1) := fun hok => by
        obtain ⟨service, _, hsupp⟩ := TCPSession.onHeader_supported hok
        refine Or.inr ⟨service, ?_⟩
        rw [← hversion hok] at hsupp
        exact hsupp
      simp only [resumeReadLoop] at hopen ⊢
      split at hopen
      · exact absurd hopen (stop_not_open _)
      · rename_i hact
        have hok := hpeer (by simp [hact])
        refine .top (.ping hact) ?_ hok
        rw [← hversion (by simp [hact])]
        exact hset.trans (posts_post _ _)
      · rename_i hact
        exact .top (.pong hact) hset (hpeer (by simp [hact]))
      · rename_i hact
        exact .wait (.readBody hact _) hset (hpeer (by simp [hact]))
  | body t v bytes =>
    cases bytes with
    | none => exact absurd hopen (stop_not_open _)
    | some bytes => exact said_runHandler (r := .body t v (some bytes)) rfl hopen
  | answered rest => exact said_runHandler (r := .answered rest) rfl hopen

/-! ## What it posts was to come -/

theorem future_answered {handlers : Handlers Q A} {repo : Nat → Q → A} {s : Strand Q A}
    {r : Resumption Q A} {c : Coroutine Q A ConnCall Unit}
    (hc : resumedHandler handlers r = some c) :
    (s.goto (.scheduled r)).future handlers repo =
      continued handlers repo s.asked c (framesOf s.input) := by
  cases r with
  | start => cases hc
  | woken => cases hc
  | header bytes => cases hc
  | body t v bytes =>
    cases bytes with
    | none => cases hc
    | some bytes =>
      cases hc
      rfl
  | answered rest =>
    cases hc
    rfl

theorem future_header {handlers : Handlers Q A} {repo : Nat → Q → A} {s : Strand Q A}
    {bytes : Bytes} : (s.goto (.scheduled (.header (some bytes)))).future handlers repo =
      dialogue handlers repo s.asked (framesOf ((TCPHeaderConv.ofBytes bytes).bytes ++ s.input)) :=
  rfl

/-- `ReadLoop` says what was to come, and the rest stays to come. -/
theorem Said.future {handlers : Handlers Q A} (repo : Nat → Q → A) {s t : Strand Q A}
    {r : Resumption Q A} (h : Said handlers s r t) (hopen : t.isClosed = false) :
    posted t.queue ++ t.future handlers repo =
      posted s.queue ++ (s.goto (.scheduled r)).future handlers repo := by
  have htop : ∀ {u : Strand Q A} {fs : List Frame}, Posts s u fs → u.isClosed = false →
      posted u.readLoopTop.queue ++ u.readLoopTop.future handlers repo =
        posted s.queue ++ (fs ++ dialogue handlers repo s.asked (framesOf s.input)) := by
    intro u fs hpost ho
    rw [future_top, hpost.asked, hpost.input, ← List.append_assoc, ← (hpost.posted ho).2]
    rfl
  have hdec := fun bytes => decodeFrame_onHeader s.writer.session (TCPHeaderConv.ofBytes bytes)
    s.input
  cases h with
  | @top u fs spoken hpost _ =>
    rw [htop hpost hopen]
    congr 1
    cases spoken with
    | start => rfl
    | @ping bytes header =>
      have hframe := hdec bytes
      rw [header] at hframe
      rw [future_header, framesOf_of_some hframe]
      rfl
    | @pong bytes header =>
      have hframe := hdec bytes
      rw [header] at hframe
      rw [future_header, framesOf_of_some hframe]
      rfl
    | returned hc stop stays =>
      rw [future_answered hc, continued_segment handlers repo _ _ _ stays, stop]
  | @wait u fs p spoken hpost _ =>
    show posted u.queue ++ _ = _
    rw [(hpost.posted hopen).2, List.append_assoc]
    congr 1
    cases spoken with
    | woken live =>
      exact future_congr (s := s.goto (.headerRead live)) (t := u.goto (.headerRead live)) rfl
        hpost.input hpost.asked
    | @readBody bytes t v n header live =>
      have hframe := hdec bytes
      rw [header] at hframe
      obtain ⟨_, _, _, ht, _⟩ := TCPSession.onHeader_readBody header
      have hfut : (u.goto (.bodyRead t v n live)).future handlers repo =
          (s.goto (.bodyRead t v n live)).future handlers repo :=
        future_congr (by rfl) hpost.input hpost.asked
      rw [List.nil_append, future_header, hfut]
      by_cases hle : n ≤ s.input.length
      · simp only [if_pos hle] at hframe
        rw [framesOf_of_some hframe, dialogue_body _ _ _ _ _ _ ht]
        exact future_bodyRead (s := s.goto (.bodyRead t v n live)) rfl hle
      · simp only [if_neg hle] at hframe
        rw [framesOf_of_none hframe]
        exact if_neg hle
    | @asked _ c q k hc stop stays =>
      rw [future_answered hc, continued_segment handlers repo _ _ _ stays, stop,
        ← hpost.asked, ← hpost.input]
      rfl

/-! ## Steps -/

/-- A read has failed, and `ReadLoop` does not know yet. -/
def ReadPos.Failed : ReadPos Q A → Prop
  | .scheduled (.header none) | .scheduled (.body _ _ none) => True
  | .scheduled _ | .resumeWait | .headerRead _ | .bodyRead _ _ _ _ | .handlerWait _ _
  | .finished => False

theorem notFailed_of_handler {handlers : Handlers Q A} {r : Resumption Q A}
    {c : Coroutine Q A ConnCall Unit} (h : resumedHandler handlers r = some c) :
    ¬ ReadPos.Failed (.scheduled r) := by
  cases r with
  | start => exact id
  | woken => exact id
  | header => cases h
  | body t v bytes =>
    cases bytes with
    | none => cases h
    | some bytes => exact id
  | answered => exact id

/-- A step that leaves the session open has failed a read, or has lost no reply. -/
inductive Unlost (handlers : Handlers Q A) (repo : Nat → Q → A) (s t : Strand Q A) : Prop where
  | failed (h : ReadPos.Failed t.readPos)
  | said (pos : ¬ ReadPos.Failed s.readPos)
      (h : replies (t.said handlers repo) = replies (s.said handlers repo))

variable {handlers : Handlers Q A} {repo : Nat → Q → A}

/-- A step of something else leaves `ReadLoop` where it is, or wakes it. -/
theorem unlost_elsewhere {s t : Strand Q A}
    (hpos : t.readPos = s.readPos ∨ s.readPos = .resumeWait ∧ t.readPos = .scheduled .woken)
    (h : replies (t.said handlers repo) = replies (s.said handlers repo)) :
    Unlost handlers repo s t := by
  by_cases hf : ReadPos.Failed s.readPos
  · rcases hpos with heq | ⟨hwait, _⟩
    · exact .failed (heq ▸ hf)
    · rw [hwait] at hf
      exact hf.elim
  · exact .said hf h

theorem said_of_eq {s t : Strand Q A} (ha : t.writer.accepted = s.writer.accepted)
    (hq : posted t.queue = posted s.queue)
    (hf : t.future handlers repo = s.future handlers repo) :
    replies (t.said handlers repo) = replies (s.said handlers repo) := by
  rw [said, said, ha, hq, hf]

/-- The first posted frame joins the accepted ones. -/
theorem unlost_sendFrame {s t : Strand Q A} {a : SendArgs} {rest : List Task} {raced : Bool}
    {idle : Nat} (hinv : SessionInv s) (hq : s.queue = .sendFrame a :: rest)
    (h : (s.take 0).runTask handlers raced idle (.sendFrame a) = some t)
    (hopen : t.isClosed = false) : Unlost handlers repo s t := by
  simp only [runTask] at h
  obtain ⟨u, hu, rfl⟩ := Option.map_eq_some_iff.mp h
  obtain ⟨hsame, _, _, hacc⟩ :=
    callWriter_sendFrame_open (s := s.take 0) hinv.writer.accounting.bounded hu hopen
  have hpos := congrArg Strand.readPos hsame
  have hinput := congrArg Strand.input hsame
  have hasked := congrArg Strand.asked hsame
  refine unlost_elsewhere (Or.inl hpos) ?_
  have hpost : posted u.queue = posted rest := by
    rw [congrArg Strand.queue hsame]
    exact congrArg posted (take_first hq)
  have hfut : u.future handlers repo = s.future handlers repo :=
    future_congr hpos hinput hasked
  show replies (u.writer.accepted ++ posted u.queue ++ u.future handlers repo) = _
  rw [hacc, hpost, hfut, said, hq, List.append_assoc (take s 0).writer.accepted]
  rfl

theorem unlost_writeDone {s t : Strand Q A} {b : Batch} {ec : Bool} {rest : List Task}
    (hq : s.queue = .writeDone b ec :: rest)
    (h : (s.take 0).callWriter (.writeDone b ec) = some t) : Unlost handlers repo s t := by
  obtain ⟨hw, hpost, hfut⟩ := callWriter_said handlers repo h
  refine unlost_elsewhere (callWriter_pathOnly h).readPos (said_of_eq ?_ (hpost.trans ?_) hfut)
  · rcases (Writer.writeDone_step hw).2 with ⟨_, hw⟩ | ⟨_, _, hw⟩ | ⟨_, _, _, hw⟩
    all_goals rw [hw]; rfl
  · rw [take_first hq, hq]
    rfl

theorem Said.before {s t : Strand Q A} {r : Resumption Q A} (h : Said handlers s r t) :
    t.writer.accepted = s.writer.accepted ∧ ¬ ReadPos.Failed (.scheduled r) := by
  have hr : ∀ {fs p}, Says handlers s.writer.session r fs p →
      ¬ ReadPos.Failed (.scheduled r) := by
    intro fs p hs
    cases hs with
    | start => exact id
    | woken => exact id
    | ping => exact id
    | pong => exact id
    | readBody => exact id
    | returned hc _ _ => exact notFailed_of_handler hc
    | asked hc _ _ => exact notFailed_of_handler hc
  cases h with
  | top spoken hpost _ => exact ⟨hpost.accepted, hr spoken⟩
  | wait spoken hpost _ => exact ⟨hpost.accepted, hr spoken⟩

theorem unlost_readDone {s t : Strand Q A} {n : Nat} {live ok : Bool}
    {r : Option Bytes → Resumption Q A} (h : s.readDone n live ok r = some t)
    (hpos : ¬ ReadPos.Failed s.readPos)
    (hgot : ∀ bytes rest, bytes.length = n → s.input = bytes ++ rest →
      future handlers repo ({ s with input := rest }.goto (.scheduled (r (some bytes)))) =
        s.future handlers repo)
    (hfail : ReadPos.Failed (.scheduled (r none))) : Unlost handlers repo s t := by
  rcases readDone_cases h with ⟨bytes, rest, hlen, hin, rfl⟩ | rfl
  · refine .said hpos (said_of_eq rfl ?_ (hgot bytes rest hlen hin))
    simp [post, goto, posted, frame?]
  · exact .failed hfail

/-- **No step of an open session loses a reply**, unless it fails a read. -/
theorem said_step {s t : Strand Q A} {act : StrandAct} (hinv : SessionInv s) (hact : InOrder act)
    (h : s.step handlers repo act = some t) (hopen : t.isClosed = false) :
    Unlost handlers repo s t := by
  have ho := open_of_reaches hinv.writer (writer_step handlers repo s act t hinv h) hopen
  have hclean : s.cleanups = 0 := by
    rw [hinv.cleanup, isClosed, ho, Bool.toNat_false]
  rw [cleanups] at hclean
  cases fires_of_step h with
  | sendFrame htask hrun =>
    cases hact
    obtain ⟨rest, hq⟩ := queue_of_first htask
    exact unlost_sendFrame hinv hq hrun hopen
  | written htask hrun =>
    cases hact
    obtain ⟨rest, hq⟩ := queue_of_first htask
    exact unlost_writeDone hq hrun
  | cleanup htask =>
    have := List.count_pos_iff.mpr (List.mem_of_getElem? htask)
    omega
  | @readLoop i _ _ r htask hr =>
    cases hact
    obtain ⟨rest, hq⟩ := queue_of_first htask
    have hsaid := resumeReadLoop_speaks hopen
    obtain ⟨hacc, hnot⟩ := hsaid.before
    have hfut : future handlers repo ((s.take 0).goto (.scheduled r)) =
        s.future handlers repo := future_congr hr.symm rfl rfl
    have hnext := hsaid.future repo hopen
    rw [take_first hq, hfut] at hnext
    refine .said (hr ▸ hnot) ?_
    rw [said, said, hacc, List.append_assoc, hnext, hq, List.append_assoc]
    rfl
  | @heartbeat i _ idle r htask _ =>
    cases hact
    obtain ⟨rest, hq⟩ := queue_of_first htask
    obtain ⟨u, p, fs, hp, hfs, hu⟩ := posts_heartbeat (s.take 0) idle r
    rw [hu] at hopen ⊢
    refine unlost_elsewhere (Or.inl hp.readPos) ?_
    have hfut : future handlers repo { u with hbPos := p } = s.future handlers repo :=
      future_congr hp.readPos hp.input hp.asked
    have hpost : posted u.queue = posted s.queue ++ fs := by
      rw [(hp.posted hopen).2, take_first hq, hq]
      rfl
    show replies (u.writer.accepted ++ posted u.queue ++ _) = _
    rw [said, hfut, hp.accepted, hpost, replies_append, replies_append, replies_append, hfs,
      List.append_nil, replies_append, replies_append]
    rfl
  | headerDone hp hread =>
    refine unlost_readDone hread (by rw [hp]; exact id) (fun bytes rest hlen hin => ?_) trivial
    simp only [future, goto, hp, TCPHeaderConv.bytes_ofBytes hlen, ← hin]
  | @bodyDone _ _ n _ _ _ hp hread =>
    refine unlost_readDone hread (by rw [hp]; exact id) (fun bytes rest hlen hin => ?_) trivial
    have hle : n ≤ s.input.length := by
      rw [hin, List.length_append]
      omega
    rw [future_bodyRead hp hle, hin, ← hlen, List.take_left, List.drop_left]
    rfl
  | writeDone =>
    exact unlost_elsewhere (Or.inl rfl) (said_of_eq rfl (by simp [post, posted, frame?]) rfl)
  | hbExpires =>
    exact unlost_elsewhere (Or.inl rfl) (said_of_eq rfl (by simp [post, posted, frame?]) rfl)
  | answer hp =>
    refine .said (by rw [hp]; exact id) (said_of_eq rfl (by simp [post, goto, posted, frame?]) ?_)
    simp only [future, post, goto, hp]
  | send => exact hact.elim
  | closeFlag => cases hopen
  | closePost howed =>
    rw [howed, Bool.toNat_true] at hclean
    omega

/-! ## Every run -/

structure AnsweringInv (handlers : Handlers Q A) (repo : Nat → Q → A) (input : Bytes)
    (s : Strand Q A) : Prop where
  session : SessionInv s
  said : s.isClosed = false → ReadPos.Failed s.readPos ∨
    replies (s.said handlers repo) = replies (dialogue handlers repo 0 (framesOf input))

theorem answeringInv_step (handlers : Handlers Q A) (repo : Nat → Q → A) (input : Bytes)
    (s : Strand Q A) (act : StrandAct) (t : Strand Q A)
    (hinv : AnsweringInv handlers repo input s) (hact : InOrder act)
    (h : s.step handlers repo act = some t) : AnsweringInv handlers repo input t := by
  refine ⟨sessionInv_step handlers repo s act t hinv.session h, fun ho => ?_⟩
  have hreach := writer_step handlers repo s act t hinv.session h
  have hprev := hinv.said (open_of_reaches hinv.session.writer hreach ho)
  cases said_step hinv.session hact h ho with
  | failed hf => exact Or.inl hf
  | said hpos heq => exact Or.inr (heq.trans (hprev.resolve_left hpos))

/-- **An open session owes what it has been asked, and nothing else**: accepted, posted and to
    come make up the dialogue, unless a read has failed. -/
theorem answering_run {input : Bytes} {acts : List StrandAct} {s : Strand Q A}
    (hacts : ∀ act ∈ acts, InOrder act)
    (h : Runs.exec (step handlers repo) (init input) acts = some s) :
    AnsweringInv handlers repo input s :=
  Runs.exec_invariant_of (answeringInv_step handlers repo input)
    ⟨sessionInv_init input, fun _ => Or.inr rfl⟩ hacts h

end Strand

end Zem
