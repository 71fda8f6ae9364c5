import Zem.Session.AtRest
import Zem.Session.Replies

/-!
# What a session puts on the wire

The bytes of the completed writes, read with the grammar that `ReadLoop` reads its input with.

* `SpeakFrames` — handlers that answer with frames of the grammar; `speakFrames_makeSession`.
* `Speaking`, `speakInv_step`, `speakInv_run` — then whatever the session accepts, posts or is still
  to answer is a frame of the grammar.
* `written_decodes` — so what is written decodes without a remainder, to the first accepted frames.
* `requests_answered` — and once the server's session is at rest and open, what is written answers
  every request it has received.
-/

set_option autoImplicit false

namespace Zem

/-! ## Handlers that speak the grammar -/

/-- A call that sends no frame, or one of the grammar. -/
def ConnCall.Sendable : ConnCall → Prop
  | .send a => a.frame.Valid
  | .close => True

/-- On every path, and for every version that a service supports, the handlers send frames of the
    grammar. -/
def SpeakFrames {Q A : Type} (handlers : Handlers Q A) : Prop :=
  ∀ t v body, ApiVersion.isSupportedFor t v = true →
    (handlers t.index v body).Performs ConnCall.Sendable

theorem valid_of_mem_sends {calls : List ConnCall} (h : ∀ c ∈ calls, c.Sendable) :
    ∀ f ∈ sends calls, f.Valid := by
  intro f hf
  obtain ⟨c, hc, hcf⟩ := List.mem_filterMap.mp hf
  have hs := h c hc
  cases c with
  | send a =>
    cases hcf
    exact hs
  | close => cases hcf

/-- All services have the same versions. -/
theorem ApiVersion.supported_service {t : TCPServiceType} {v : UInt16} (u : TCPServiceType)
    (h : ApiVersion.isSupportedFor t v = true) : ApiVersion.isSupportedFor u v = true := by
  rw [isSupportedFor_iff] at h ⊢
  exact h

/-- The response of `LoginHandler` is a frame of the grammar. -/
theorem valid_loginResponse {v : UInt16} (h : ApiVersion.isSupportedFor .login v = true)
    (result : LoginResult) : (loginResponse v result).frame.Valid := by
  refine ⟨h, ?_⟩
  show Frame.BodySizeOk .login (BigEndian.toBytes 4 result.code.toNat).length
  rw [BigEndian.length_toBytes]
  decide

theorem speakFrames_makeSession : SpeakFrames makeSessionHandlers := by
  intro t v body hv
  cases t with
  | ping => exact ⟨trivial, trivial⟩
  | pong => exact ⟨trivial, trivial⟩
  | receiving => exact ⟨trivial, trivial⟩
  | login =>
    show (loginTask v body).Performs ConnCall.Sendable
    cases hdec : LoginCodec.decodeRequest v body with
    | none =>
      simp only [loginTask, loginHandler, hdec]
      trivial
    | some dto =>
      rw [loginTask_some hdec]
      exact fun outcome => ⟨valid_loginResponse hv _, trivial⟩

namespace Strand

variable {Q A : Type} {handlers : Handlers Q A} {repo : Nat → Q → A}

/-! ## Everything said is valid -/

/-- The steps of a session whose frames come from its own coroutines. -/
def Own : StrandAct → Prop
  | .send _ => False
  | .run _ _ _ | .readDone _ | .writeDone _ _ | .hbExpires | .answer | .closeFlag | .closePost =>
    True

theorem own_of_inOrder {act : StrandAct} (h : InOrder act) : Own act := by
  cases act with
  | send => exact h
  | run | readDone | writeDone | hbExpires | answer | closeFlag | closePost => trivial

/-- What is left of the request in progress sends frames of the grammar only. -/
def ReadPos.Sound : ReadPos Q A → Prop
  | .bodyRead t v _ _ | .scheduled (.body t v _) => ApiVersion.isSupportedFor t v = true
  | .scheduled (.answered rest) => rest.Performs ConnCall.Sendable
  | .handlerWait _ k => ∀ a, (k a).Performs ConnCall.Sendable
  | .scheduled .start | .scheduled .woken | .scheduled (.header _) | .resumeWait | .headerRead _
  | .finished => True

/-- What an open session goes on to say is valid. -/
structure Speaking (s : Strand Q A) : Prop where
  peer : ApiVersion.isSupportedFor .ping s.writer.session.peerApiVersion = true
  posted : ∀ f ∈ posted s.queue, f.Valid
  reader : ReadPos.Sound s.readPos

structure SpeakInv (s : Strand Q A) : Prop where
  session : SessionInv s
  accepted : ∀ f ∈ s.writer.accepted, f.Valid
  speaking : s.isClosed = false → Speaking s

theorem speakInv_init (input : Bytes) : SpeakInv (init input : Strand Q A) :=
  ⟨sessionInv_init input, fun _ hf => (nomatch hf), fun _ =>
    ⟨rfl, fun _ hf => (nomatch hf), trivial⟩⟩

theorem mem_posted_take {s : Strand Q A} {i : Nat} {f : Frame}
    (h : f ∈ posted (s.take i).queue) : f ∈ posted s.queue :=
  ((List.eraseIdx_sublist s.queue i).filterMap frame?).subset h

/-! ## The accepted frames -/

theorem accepted_writeDone {w w' : Writer} {b : Batch} {ec : Bool}
    (h : w.step (.writeDone b ec) = some w') :
    w'.accepted = w.accepted ∧ w'.session.peerApiVersion = w.session.peerApiVersion := by
  rcases (Writer.writeDone_step h).2 with ⟨_, rfl⟩ | ⟨_, _, rfl⟩ | ⟨_, _, _, rfl⟩
  · exact ⟨rfl, rfl⟩
  · exact ⟨rfl, rfl⟩
  · exact ⟨rfl, rfl⟩

theorem accepted_sendFrame {w w' : Writer} {a : SendArgs} {raced : Bool}
    (hs : w.session.pendingBytes ≤ sizeMax) (h : w.step (.sendFrame a raced) = some w') :
    (w'.accepted = w.accepted ∨
      w.session.isClosed = false ∧ w'.accepted = w.accepted ++ [a.frame]) ∧
    w'.session.peerApiVersion = w.session.peerApiVersion := by
  rcases Writer.sendFrame_step hs h with
    ⟨_, rfl⟩ | ⟨_, _, _, _, _, rfl⟩ | ⟨ho, _, _, ⟨_, rfl⟩ | ⟨_, _, rfl⟩⟩
  · exact ⟨Or.inl rfl, rfl⟩
  · exact ⟨Or.inl rfl, rfl⟩
  · exact ⟨Or.inr ⟨ho, rfl⟩, rfl⟩
  · exact ⟨Or.inr ⟨ho, rfl⟩, rfl⟩

/-- A frame is accepted once it has been posted, by an open session. -/
theorem accepted_step {s t : Strand Q A} {act : StrandAct} (hinv : SessionInv s)
    (h : s.step handlers repo act = some t) {f : Frame} (hf : f ∈ t.writer.accepted) :
    f ∈ s.writer.accepted ∨ s.isClosed = false ∧ f ∈ posted s.queue := by
  cases fires_of_step h with
  | @sendFrame i _ _ a _ htask hrun =>
    simp only [runTask] at hrun
    obtain ⟨u, hu, rfl⟩ := Option.map_eq_some_iff.mp hrun
    obtain ⟨hacc | ⟨ho, hacc⟩, _⟩ := accepted_sendFrame (w := (s.take i).writer)
      hinv.writer.accounting.bounded (callWriter_writer hu)
    · exact Or.inl (hacc ▸ hf)
    · have hf : f ∈ u.writer.accepted := hf
      rw [hacc, List.mem_append, List.mem_singleton] at hf
      rcases hf with hf | rfl
      · exact Or.inl hf
      · exact Or.inr ⟨ho, List.mem_filterMap.mpr ⟨_, List.mem_of_getElem? htask, rfl⟩⟩
  | written _ hrun =>
    rw [(accepted_writeDone (callWriter_writer hrun)).1] at hf
    exact Or.inl hf
  | @cleanup i _ _ htask =>
    rw [(cleanup_spec (s.take i)).1] at hf
    exact Or.inl hf
  | @readLoop i _ _ r htask hr =>
    rw [(follows_resumeReadLoop handlers repo (s.take i) r).1] at hf
    exact Or.inl hf
  | @heartbeat i _ idle r htask hr =>
    obtain ⟨u, p, fs, hp, _, hu⟩ := posts_heartbeat (s.take i) idle r
    rw [hu] at hf
    have hf : f ∈ u.writer.accepted := hf
    rw [hp.accepted] at hf
    exact Or.inl hf
  | headerDone _ hread =>
    rcases readDone_cases hread with ⟨_, _, _, _, rfl⟩ | rfl <;> exact Or.inl hf
  | bodyDone _ hread =>
    rcases readDone_cases hread with ⟨_, _, _, _, rfl⟩ | rfl <;> exact Or.inl hf
  | writeDone => exact Or.inl hf
  | hbExpires => exact Or.inl hf
  | answer => exact Or.inl hf
  | send => exact Or.inl hf
  | closeFlag => exact Or.inl hf
  | closePost => exact Or.inl hf

/-! ## The coroutines -/

/-- What `ReadLoop` posts between two waits is valid, and so is what it goes on to. -/
theorem Says.valid {s : Strand Q A} {r : Resumption Q A} {fs : List Frame}
    {p : Option (ReadPos Q A)} (hspeak : SpeakFrames handlers)
    (h : Says handlers s.writer.session r fs p) (hr : ReadPos.Sound (.scheduled r)) :
    (∀ f ∈ fs, f.Valid) ∧ ∀ q ∈ p, ReadPos.Sound q := by
  have hhandler : ∀ {c : Coroutine Q A ConnCall Unit}, resumedHandler handlers r = some c →
      c.Performs ConnCall.Sendable := by
    intro c hc
    cases r with
    | start => cases hc
    | woken => cases hc
    | header => cases hc
    | body t v bytes =>
      cases bytes with
      | none => cases hc
      | some bytes =>
        cases hc
        exact hspeak t v bytes hr
    | answered rest =>
      cases hc
      exact hr
  have hsupp : ∀ {bytes : Bytes},
      (s.writer.session.onHeader (TCPHeaderConv.ofBytes bytes)).2 ≠ .reject →
      ∀ u, ApiVersion.isSupportedFor u (TCPHeaderConv.ofBytes bytes).apiVersion = true := by
    intro bytes hok u
    obtain ⟨t, _, hs⟩ := TCPSession.onHeader_supported hok
    exact ApiVersion.supported_service u hs
  cases h with
  | start => exact ⟨by simp, by simp⟩
  | woken live =>
    refine ⟨by simp, fun q hq => ?_⟩
    cases hq
    trivial
  | ping header =>
    refine ⟨fun f hf => ?_, by simp⟩
    obtain rfl := List.mem_singleton.mp hf
    exact ⟨hsupp (by simp [header]) _, rfl⟩
  | pong => exact ⟨by simp, by simp⟩
  | @readBody bytes t v n header live =>
    refine ⟨by simp, fun q hq => ?_⟩
    cases hq
    obtain ⟨_, rfl, _⟩ := TCPSession.onHeader_readBody header
    exact hsupp (by simp [header]) t
  | returned hc _ _ =>
    exact ⟨valid_of_mem_sends (hhandler hc).segment.1, by simp⟩
  | asked hc hstop _ =>
    obtain ⟨hsends, hrest⟩ := (hhandler hc).segment
    refine ⟨valid_of_mem_sends hsends, fun q hq => ?_⟩
    cases hq
    exact hrest _ _ hstop

/-- `Heartbeat` posts pings of the peer's version, unless it closes the session. -/
theorem foldl_performHb_pings : ∀ (calls : List HbCall) {s : Strand Q A},
    (calls.foldl performHb s).isClosed = false →
      ∃ n, calls.foldl performHb s = s.postAll (List.replicate n s.writer.session.sendPing)
  | [], s, _ => ⟨0, (postAll_nil s).symm⟩
  | .sendPing :: calls, s, h => by
    rw [List.foldl_cons] at h ⊢
    obtain ⟨n, hs⟩ := foldl_performHb_pings calls h
    exact ⟨n + 1, hs.trans (postAll_post s _ _)⟩
  | .shutdown :: calls, s, h => by
    have ho := open_of_foldl performHb_closed calls h
    rw [performHb, isClosed_shutdown] at ho
    cases ho

theorem mem_posted_postAll {s : Strand Q A} {args : List SendArgs} {f : Frame}
    (h : f ∈ posted (s.postAll args).queue) : f ∈ posted s.queue ∨ ∃ a ∈ args, a.frame = f := by
  rw [postAll, posted_append, List.mem_append] at h
  refine h.imp_right fun hf => ?_
  obtain ⟨task, htask, hframe⟩ := List.mem_filterMap.mp hf
  obtain ⟨a, ha, rfl⟩ := List.mem_map.mp htask
  exact ⟨a, ha, Option.some.inj hframe⟩

/-! ## Steps -/

/-- A step of the write path posts no frame, and leaves `ReadLoop` where it is, or wakes it. -/
theorem Speaking.path {s t : Strand Q A} {i : Nat} (h : Speaking s)
    (hpeer : t.writer.session.peerApiVersion = s.writer.session.peerApiVersion)
    (hpost : Strand.posted t.queue = Strand.posted (s.take i).queue)
    (hpos : t.readPos = s.readPos ∨ s.readPos = .resumeWait ∧ t.readPos = .scheduled .woken) :
    Speaking t := by
  refine ⟨hpeer ▸ h.peer, fun f hf => h.posted f (mem_posted_take (hpost ▸ hf)), ?_⟩
  rcases hpos with heq | ⟨_, heq⟩
  · rw [heq]
    exact h.reader
  · rw [heq]
    trivial

/-- A step that posts no frame. -/
theorem Speaking.goto {s t : Strand Q A} (h : Speaking s) (hw : t.writer = s.writer)
    (hpost : Strand.posted t.queue = Strand.posted s.queue) (hpos : ReadPos.Sound t.readPos) :
    Speaking t :=
  ⟨hw ▸ h.peer, hpost ▸ h.posted, hpos⟩

theorem Speaking.readLoop {s t : Strand Q A} {i : Nat} {r : Resumption Q A}
    (hspeak : SpeakFrames handlers) (h : Speaking s) (hr : s.readPos = .scheduled r)
    (hsaid : Said handlers (s.take i) r t) (hopen : t.isClosed = false) : Speaking t := by
  have hreader := h.reader
  rw [hr] at hreader
  have hpeer : ∀ {u : Strand Q A}, PeerKept (s.take i) u →
      ApiVersion.isSupportedFor .ping u.writer.session.peerApiVersion = true := by
    rintro u (heq | ⟨service, hs⟩)
    · rw [heq]
      exact h.peer
    · exact ApiVersion.supported_service _ hs
  have hposted : ∀ {u : Strand Q A} {fs : List Frame}, Posts (s.take i) u fs →
      u.isClosed = false → (∀ f ∈ fs, f.Valid) → ∀ f ∈ Strand.posted u.queue, f.Valid := by
    intro u fs hp ho hfs f hf
    rw [(hp.posted ho).2, List.mem_append] at hf
    rcases hf with hf | hf
    · exact h.posted f (mem_posted_take hf)
    · exact hfs f hf
  cases hsaid with
  | @top u fs spoken hpost hkept =>
    refine ⟨hpeer hkept, hposted (u := u) hpost hopen (spoken.valid hspeak hreader).1, ?_⟩
    unfold readLoopTop Strand.goto
    split <;> trivial
  | @wait u fs p spoken hpost hkept =>
    obtain ⟨hfs, hpos⟩ := spoken.valid hspeak hreader
    exact ⟨hpeer hkept, hposted (u := u) hpost hopen hfs, hpos _ rfl⟩

theorem Speaking.heartbeat {s : Strand Q A} {i : Nat} {idle : Nat} {r : HbResumption}
    (h : Speaking s) (hopen : ((s.take i).resumeHeartbeat idle r).isClosed = false) :
    Speaking ((s.take i).resumeHeartbeat idle r) := by
  obtain ⟨n, hs⟩ := foldl_performHb_pings _ hopen
  have hw := congrArg Strand.writer hs
  have hq := congrArg Strand.queue hs
  have hp := congrArg Strand.readPos hs
  refine ⟨?_, fun f hf => ?_, ?_⟩
  · exact (congrArg (fun w : Writer => w.session.peerApiVersion) hw).symm ▸ h.peer
  · have hf : f ∈ Strand.posted (List.foldl performHb (s.take i) _).queue := hf
    rw [hq] at hf
    rcases mem_posted_postAll hf with hf | ⟨a, ha, rfl⟩
    · exact h.posted f (mem_posted_take hf)
    · obtain rfl := List.eq_of_mem_replicate ha
      exact ⟨h.peer, rfl⟩
  · exact hp.symm ▸ h.reader

theorem speaking_step {s t : Strand Q A} {act : StrandAct} (hspeak : SpeakFrames handlers)
    (hinv : SessionInv s) (hact : Own act) (hs : Speaking s)
    (h : s.step handlers repo act = some t) (hopen : t.isClosed = false) : Speaking t := by
  have hread : ∀ {n live ok} {r : Option Bytes → Resumption Q A},
      s.readDone n live ok r = some t → (∀ bytes, ReadPos.Sound (.scheduled (r bytes))) →
      Speaking t := by
    intro n live ok r hread hr
    rcases readDone_cases hread with ⟨_, _, _, _, rfl⟩ | rfl
    · exact hs.goto rfl (by simp [post, Strand.goto, posted, frame?]) (hr _)
    · exact hs.goto rfl (by simp [post, Strand.goto, posted, frame?]) (hr _)
  have hreader := hs.reader
  cases fires_of_step h with
  | @sendFrame i _ _ a _ htask hrun =>
    simp only [runTask] at hrun
    obtain ⟨u, hu, rfl⟩ := Option.map_eq_some_iff.mp hrun
    exact Speaking.path (i := i) hs
      (accepted_sendFrame (w := (s.take i).writer) hinv.writer.accounting.bounded
        (callWriter_writer hu)).2
      (callWriter_said handlers repo hu).2.1 (callWriter_pathOnly hu).readPos
  | @written i _ _ _ _ _ htask hrun =>
    exact Speaking.path (i := i) hs (accepted_writeDone (callWriter_writer hrun)).2
      (callWriter_said handlers repo hrun).2.1 (callWriter_pathOnly hrun).readPos
  | @cleanup i _ _ htask =>
    -- an open session has none
    have hclean := hinv.cleanup
    rw [isClosed, (cleanup_spec (s.take i)).1] at hopen
    have ho : s.isClosed = false := hopen
    have := List.count_pos_iff.mpr (List.mem_of_getElem? htask)
    rw [cleanups, ho, Bool.toNat_false] at hclean
    omega
  | readLoop _ hr => exact hs.readLoop hspeak hr (resumeReadLoop_speaks hopen) hopen
  | heartbeat => exact hs.heartbeat hopen
  | headerDone _ hdone => exact hread hdone fun _ => trivial
  | bodyDone hp hdone =>
    rw [hp] at hreader
    exact hread hdone fun _ => hreader
  | writeDone => exact hs.goto rfl (by simp [post, posted, frame?]) hreader
  | hbExpires => exact hs.goto rfl (by simp [post, posted, frame?]) hreader
  | answer hp =>
    rw [hp] at hreader
    exact hs.goto rfl (by simp [post, Strand.goto, posted, frame?]) (hreader _)
  | send => exact hact.elim
  | closeFlag => cases hopen
  | closePost => exact hs.goto rfl (by simp [post, posted, frame?]) hreader

theorem speakInv_step (hspeak : SpeakFrames handlers) (s : Strand Q A) (act : StrandAct)
    (t : Strand Q A) (hinv : SpeakInv s) (hact : Own act)
    (h : s.step handlers repo act = some t) : SpeakInv t := by
  refine ⟨sessionInv_step handlers repo s act t hinv.session h, fun f hf => ?_, fun ho => ?_⟩
  · rcases accepted_step hinv.session h hf with hf | ⟨ho, hf⟩
    · exact hinv.accepted f hf
    · exact (hinv.speaking ho).posted f hf
  · have hreach := writer_step handlers repo s act t hinv.session h
    exact speaking_step hspeak hinv.session hact
      (hinv.speaking (open_of_reaches hinv.session.writer hreach ho)) h ho

theorem speakInv_run (hspeak : SpeakFrames handlers) {input : Bytes} {acts : List StrandAct}
    {s : Strand Q A} (hacts : ∀ act ∈ acts, Own act)
    (h : Runs.exec (step handlers repo) (init input) acts = some s) : SpeakInv s :=
  Runs.exec_invariant_of (speakInv_step hspeak) (speakInv_init input) hacts h

/-! ## Results -/

/-- Valid frames, written one after the other, are read back. -/
theorem decodeAll_written {w : Writer} (hstream : StreamInv w) (hv : ∀ f ∈ w.accepted, f.Valid) :
    Framing.decodeAll frameCode w.written = (w.accepted.take w.carried, []) := by
  have htake : ∀ f ∈ w.accepted.take w.carried, frameCode.Valid f :=
    fun f hf => hv f (List.mem_of_mem_take hf)
  have hdec := Framing.decodeAll_encodeAll frameCode htake []
  have hshort : frameCode.decode [] = none :=
    decodeFrame_short (by decide : ([] : Bytes).length < _)
  have hnil := Framing.decodeAll_of_none frameCode hshort
  rw [hnil, List.append_nil, List.append_nil] at hdec
  rw [hstream.written]
  exact hdec

/-- **A session speaks the grammar it reads.**  In every run the bytes it has written decode without
    a remainder, to the frames it has accepted, in order; all of these are valid. -/
theorem written_decodes {input : Bytes} {acts : List StrandAct} {s : Strand Q A}
    (hspeak : SpeakFrames handlers) (hacts : ∀ act ∈ acts, Own act)
    (h : Runs.exec (step handlers repo) (init input) acts = some s) :
    framesOf s.writer.written = s.writer.accepted.take s.writer.carried ∧
      remainderOf s.writer.written = [] ∧ ∀ f ∈ s.writer.accepted, f.Valid := by
  have hinv := speakInv_run hspeak hacts h
  have hdec := decodeAll_written (writePath_run h).2 hinv.accepted
  exact ⟨congrArg Prod.fst hdec, congrArg Prod.snd hdec, hinv.accepted⟩

/-- A run that reads a ping and writes its answer. -/
def pongWritten : List StrandAct :=
  startBoth ++ answerPing ++ [.writeDone firstBatch false, .run 0 false 0]

/-- The rule at a run that answers a ping. -/
theorem written_decodes_pong :
    ∃ s, Runs.exec (step makeSessionHandlers rightPassword) (init pingFrame) pongWritten = some s ∧
      framesOf s.writer.written = s.writer.accepted.take s.writer.carried ∧
      s.writer.accepted.take s.writer.carried = [⟨.pong, 1, []⟩] :=
  ⟨_, rfl, (@written_decodes _ _ _ rightPassword pingFrame pongWritten _ speakFrames_makeSession
    (by simp [pongWritten, startBoth, answerPing, Own]) rfl).1, rfl⟩

/-- With too few bytes to come, nothing is to come. -/
theorem future_of_lacks {s : Strand Q A} (h : ReadPos.Lacks s.input s.readPos) :
    s.future handlers repo = [] := by
  cases hp : s.readPos with
  | headerRead live =>
    rw [hp] at h
    simp only [future, hp, framesOf_of_none (decodeFrame_short h.2)]
    rfl
  | bodyRead t v n live =>
    rw [hp] at h
    simp only [future, hp, if_neg (Nat.not_le_of_lt h.2)]
  | scheduled | resumeWait | handlerWait | finished =>
    rw [hp] at h
    exact h.elim

/-- A session that listens has written everything it has accepted. -/
theorem Listening.carried {s : Strand Q A} (h : Listening s) (hinv : WriterInv s.writer) :
    s.writer.accepted.take s.writer.carried = s.writer.accepted := by
  have hq : s.writer.session.writeQueue = [] := by
    by_contra hne
    exact hinv.flowing h.opened hne h.quiet.outstanding
  rw [Writer.carried, hq]
  exact List.take_length

/-- A session that listens has answered what it has received. -/
theorem Listening.answered {input : Bytes} {s : Strand Q A} (h : Listening s)
    (hinv : AnsweringInv handlers repo input s) :
    replies s.writer.accepted = replies (dialogue handlers repo 0 (framesOf input)) := by
  have hreads := h.reads
  rcases hinv.said h.opened with hf | heq
  · cases hp : s.readPos with
    | scheduled r =>
      rw [hp] at hreads
      exact hreads.elim
    | resumeWait | headerRead | bodyRead | handlerWait | finished =>
      rw [hp] at hf
      exact hf.elim
  · rw [← heq, said, future_of_lacks hreads, h.quiet.queue]
    simp [posted]

/-- What a session of the server has written answers the first frames it has received. -/
theorem responses_run {repo : Nat → Bytes → DbOutcome} {input : Bytes} {acts : List StrandAct}
    {s : Strand Bytes DbOutcome} (hacts : ∀ act ∈ acts, InOrder act)
    (h : Runs.exec (step makeSessionHandlers repo) (init input) acts = some s) :
    replies (framesOf s.writer.written) <+: responses repo 0 (framesOf input) ∧
      remainderOf s.writer.written = [] := by
  have hinv := speakInv_run speakFrames_makeSession
    (fun act hact => own_of_inOrder (hacts act hact)) h
  have hdec := decodeAll_written (writePath_run h).2 hinv.accepted
  refine ⟨?_, congrArg Prod.snd hdec⟩
  rw [framesOf, hdec, ← replies_responses, ← dialogue_makeSession]
  exact (replies_mono (List.take_prefix _ _)).trans (dialogue_run hacts h)

/-- Where nothing is bound to happen any more it is closed, or has answered all of them. -/
theorem responses_of_idle {repo : Nat → Bytes → DbOutcome} {input : Bytes} {acts : List StrandAct}
    {s : Strand Bytes DbOutcome} (hacts : ∀ act ∈ acts, InOrder act)
    (h : Runs.exec (step makeSessionHandlers repo) (init input) acts = some s)
    (hidle : Runs.Idle (step makeSessionHandlers repo) Due s) :
    s.isClosed = true ∨
      (replies (framesOf s.writer.written) = responses repo 0 (framesOf input) ∧
        remainderOf s.writer.written = []) := by
  have hlive := liveInv_run h
  cases atRest_of_idle hlive hidle with
  | listening hrest =>
    refine Or.inr ?_
    have hspoken := speakInv_run speakFrames_makeSession
      (fun act hact => own_of_inOrder (hacts act hact)) h
    have hdec := decodeAll_written (writePath_run h).2 hspoken.accepted
    rw [hrest.carried hlive.session.writer] at hdec
    rw [framesOf, remainderOf, hdec, hrest.answered (answering_run hacts h),
      dialogue_makeSession, replies_responses]
    exact ⟨rfl, rfl⟩
  | ended hrest => exact Or.inl ((hrest.quiet.cleanedUp hlive.session).symm.trans hrest.cleanedUp)
  | leftWaiting hrest =>
    exact Or.inl ((hrest.quiet.cleanedUp hlive.session).symm.trans hrest.cleanedUp)

/-- **Every request is answered.**  From every state that a session of the server reaches, its due
    steps come to an end; and whenever none is due any more, the session is closed, or the frames
    it has written, pings left out, are exactly the responses to the frames it has received. -/
theorem requests_answered {repo : Nat → Bytes → DbOutcome} {input : Bytes}
    {acts : List StrandAct} {s : Strand Bytes DbOutcome} (hacts : ∀ act ∈ acts, InOrder act)
    (h : Runs.exec (step makeSessionHandlers repo) (init input) acts = some s) :
    Runs.Settles (step makeSessionHandlers repo) Due s ∧
    ∀ acts' t, (∀ act ∈ acts', InOrder act) →
      Runs.exec (step makeSessionHandlers repo) s acts' = some t →
      Runs.Idle (step makeSessionHandlers repo) Due t →
      t.isClosed = true ∨
        (replies (framesOf t.writer.written) = responses repo 0 (framesOf input) ∧
          remainderOf t.writer.written = []) := by
  refine ⟨(settles_of_sessionInv (sessionInv_run h)).mono bounded_of_due,
    fun acts' t hacts' hrun hidle => ?_⟩
  have hall : ∀ act ∈ acts ++ acts', InOrder act := fun act hact =>
    (List.mem_append.mp hact).elim (hacts act) (hacts' act)
  exact responses_of_idle hall (Runs.exec_trans h hrun) hidle

/-- The rule at a session that has answered a ping, and listens. -/
theorem requests_answered_pong :
    ∃ s, Runs.exec (step makeSessionHandlers rightPassword) (init pingFrame) pongWritten = some s ∧
      s.isClosed = false ∧
      replies (framesOf s.writer.written) = responses rightPassword 0 (framesOf pingFrame) := by
  have hacts : ∀ act ∈ pongWritten, InOrder act := by
    simp [pongWritten, startBoth, answerPing, InOrder]
  have hrun : Runs.exec (step makeSessionHandlers rightPassword) (init pingFrame) pongWritten =
      some _ := rfl
  have hrest : Runs.Idle (step makeSessionHandlers rightPassword) Due _ :=
    Listening.idle (sessionInv_run hrun) ⟨rfl, ⟨rfl, rfl, rfl⟩, ⟨rfl, by decide⟩, ⟨_, rfl⟩⟩
  refine ⟨_, hrun, rfl, ?_⟩
  rcases (requests_answered hacts hrun).2 [] _ (by simp) rfl hrest with hc | ⟨hanswers, _⟩
  · cases hc
  · exact hanswers

end Strand

end Zem
