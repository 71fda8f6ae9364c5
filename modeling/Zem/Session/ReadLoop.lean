import Zem.Library.Coroutine
import Zem.Session.TCPSession

/-!
# ReadLoop: the decoder of a session

Reference model of `TCPSession::ReadLoop`.

* `TCPSession.onHeader` — the checks on a complete header, in the order of the source;
  `decodeFrame_onHeader` — what they say about the frame grammar.
* `readFrame`, `readIteration`, `readLoop` — the loop over a byte stream.  What the rest of the
  process does to it comes in as one `Surroundings` for each iteration.
* `readFrame_cases` — one iteration against the grammar; `readLoop_processed`,
  `readLoop_undisturbed`, `readLoop_shutdown` — the whole loop.
* `readLoop_decodes` — the loop decodes exactly the frame grammar.
-/

set_option autoImplicit false

namespace Zem

/-! ## Handlers -/

/-- `TCPSession::Handler`, called with the session itself as its connection. -/
abbrev Handler (Q A : Type) := UInt16 → Bytes → Coroutine Q A ConnCall Unit

/-- `m_handlers`. -/
abbrev Handlers (Q A : Type) := Fin TCPServiceType.typeCnt → Handler Q A

/-- `static_cast<std::size_t>(service_type)`, which lies inside `m_handlers`. -/
def TCPServiceType.index (t : TCPServiceType) : Fin TCPServiceType.typeCnt :=
  ⟨t.code.toNat, t.code_lt_typeCnt⟩

theorem TCPServiceType.ofCode?_index (t : TCPServiceType) :
    TCPServiceType.ofCode? (UInt32.ofNat t.index.val) = some t := by
  rw [index, UInt32.ofNat_toNat]
  exact ofCode?_code t

/-! ## The header -/

/-- What the loop does after a complete header. -/
inductive HeaderAction where
  | reject
  | ping
  | pong
  | readBody (serviceType : TCPServiceType) (apiVersion : UInt16) (dataSize : Nat)
  deriving DecidableEq, Repr

namespace TCPSession

/-- The arguments of `SendPing`. -/
def sendPing (s : TCPSession) : SendArgs := ⟨.ping, none, s.peerApiVersion⟩

/-- The arguments of `SendPong`. -/
def sendPong (s : TCPSession) : SendArgs := ⟨.pong, none, s.peerApiVersion⟩

/-- The checks on a header.  The peer's version is stored once it is known to be supported, that
    is before the size is checked. -/
def onHeader (h : TCPHeaderConv) (s : TCPSession) : TCPSession × HeaderAction :=
  match TCPServiceType.ofCode? h.serviceType with
  | none => (s, .reject)
  | some t =>
    if !ApiVersion.isSupportedFor t h.apiVersion then (s, .reject)
    else
      let s := { s with peerApiVersion := h.apiVersion }
      if t = .ping ∨ t = .pong then
        if h.dataSize.toNat ≠ 0 then (s, .reject)
        else if t = .ping then (s, .ping)
        else (s, .pong)
      else if h.dataSize.toNat = 0 ∨ h.dataSize.toNat > TCPSessionLimit.maxBodySize then
        (s, .reject)
      else (s, .readBody t h.apiVersion h.dataSize.toNat)

/-- A header changes at most the peer's version. -/
theorem onHeader_members (h : TCPHeaderConv) (s : TCPSession) :
    (s.onHeader h).1 = { s with peerApiVersion := (s.onHeader h).1.peerApiVersion } := by
  unfold onHeader
  split
  · rfl
  split
  · rfl
  simp only
  split
  · split
    · rfl
    split <;> rfl
  · split <;> rfl

/-- A header that is not rejected leaves its version as the peer's. -/
theorem onHeader_peerApiVersion {h : TCPHeaderConv} {s : TCPSession}
    (hok : (s.onHeader h).2 ≠ .reject) : (s.onHeader h).1.peerApiVersion = h.apiVersion := by
  unfold onHeader at hok ⊢
  split
  · rename_i hc
    simp [hc] at hok
  · rename_i t hc
    simp only [hc] at hok
    split
    · rename_i hv
      simp [hv] at hok
    simp only
    split
    · split
      · rfl
      split <;> rfl
    · split <;> rfl

theorem onHeader_readBody {h : TCPHeaderConv} {s : TCPSession} {t : TCPServiceType} {v : UInt16}
    {n : Nat} (hr : (s.onHeader h).2 = .readBody t v n) :
    TCPServiceType.ofCode? h.serviceType = some t ∧ v = h.apiVersion ∧ n = h.dataSize.toNat ∧
      (t = .login ∨ t = .receiving) ∧ Frame.BodySizeOk t n := by
  unfold onHeader at hr
  split at hr
  · cases hr
  rename_i u hu
  split at hr
  · cases hr
  simp only at hr
  split at hr
  · split at hr
    · cases hr
    split at hr
    · cases hr
    · cases hr
  · rename_i hpp
    split at hr
    · cases hr
    · rename_i hn
      cases hr
      rw [not_or] at hpp hn
      refine ⟨hu, rfl, rfl, ?_, ?_⟩
      · cases t with
        | ping => exact absurd rfl hpp.1
        | pong => exact absurd rfl hpp.2
        | login => exact Or.inl rfl
        | receiving => exact Or.inr rfl
      · unfold Frame.BodySizeOk
        split
        · exact absurd rfl hpp.1
        · exact absurd rfl hpp.2
        · omega
        · omega

end TCPSession

/-- **The header checks and the frame grammar agree.** -/
theorem decodeFrame_onHeader (s : TCPSession) (h : TCPHeaderConv) (rest : Bytes) :
    decodeFrame (h.bytes ++ rest) =
      match (s.onHeader h).2 with
      | .reject => none
      | .ping => some (⟨.ping, h.apiVersion, []⟩, rest)
      | .pong => some (⟨.pong, h.apiVersion, []⟩, rest)
      | .readBody t v n =>
        if n ≤ rest.length then some (⟨t, v, rest.take n⟩, rest.drop n) else none := by
  rw [decodeFrame_header]
  unfold TCPSession.onHeader
  cases hc : TCPServiceType.ofCode? h.serviceType with
  | none => rfl
  | some t =>
    simp only
    cases hv : ApiVersion.isSupportedFor t h.apiVersion with
    | false => simp
    | true =>
      by_cases hn : h.dataSize.toNat = 0
      · cases t <;> simp [Frame.BodySizeOk, hn]
      · by_cases hbig : h.dataSize.toNat > TCPSessionLimit.maxBodySize
        · cases t <;> simp [Frame.BodySizeOk, hn, hbig]
        · have hpos : 1 ≤ h.dataSize.toNat := Nat.one_le_iff_ne_zero.mpr hn
          have hle : h.dataSize.toNat ≤ TCPSessionLimit.maxBodySize := Nat.not_lt.mp hbig
          cases t <;> simp [Frame.BodySizeOk, hn, hbig, hpos, hle]

/-! ## The loop -/

/-- `m_backpressure` at the top of an iteration, and whether the wait it leads to ends. -/
inductive Gate where
  | clear
  | released
  | stuck
  deriving DecidableEq, Repr

/-- What one iteration meets besides the bytes: its gate, reads that fail although the bytes are
    there, and the answers to its handler. -/
structure Surroundings (Q A : Type) where
  gate : Gate
  headerFails : Bool
  bodyFails : Bool
  answer : Q → A

/-- What the loop does that others can see. -/
inductive ReadEvent where
  | waitResume
  | sendPong (a : SendArgs)
  | pong (apiVersion : UInt16)
  | handler (index : Fin TCPServiceType.typeCnt) (apiVersion : UInt16) (body : Bytes)
  | conn (c : ConnCall)
  | shutdown
  deriving DecidableEq, Repr

/-- `async_read` of `n` bytes; `none` is an error code, at the end of the stream among others. -/
def asyncRead (n : Nat) (fails : Bool) (stream : Bytes) : Option (Bytes × Bytes) :=
  if fails = false ∧ n ≤ stream.length then some (stream.take n, stream.drop n) else none

section

variable {Q A : Type} (handlers : Handlers Q A)

/-- The `try` block around the handler. -/
def callHandler (answer : Q → A) (i : Fin TCPServiceType.typeCnt) (apiVersion : UInt16)
    (body : Bytes) : List ReadEvent × Bool :=
  let r := (handlers i apiVersion body).resolve answer
  match r.2 with
  | .returned _ => (.handler i apiVersion body :: r.1.map .conn, true)
  | .threw => (.handler i apiVersion body :: (r.1.map .conn ++ [.shutdown]), false)

/-- An iteration from `async_read` of the header on. -/
def readFrame (e : Surroundings Q A) (s : TCPSession) (stream : Bytes) :
    List ReadEvent × Option (TCPSession × Bytes) :=
  match asyncRead TCPHeaderConv.size e.headerFails stream with
  | none => ([.shutdown], none)
  | some (header, stream) =>
    let r := s.onHeader (TCPHeaderConv.ofBytes header)
    let s := r.1
    match r.2 with
    | .reject => ([.shutdown], none)
    | .ping => ([.sendPong s.sendPong], some (s, stream))
    | .pong => ([.pong s.peerApiVersion], some (s, stream))
    | .readBody t v n =>
      match asyncRead n e.bodyFails stream with
      | none => ([.shutdown], none)
      | some (body, stream) =>
        let r := callHandler handlers e.answer t.index v body
        (r.1, if r.2 then some (s, stream) else none)

/-- The body of the `while` loop; `none` at the end is a `co_return`, or a wait without end. -/
def readIteration (e : Surroundings Q A) (s : TCPSession) (stream : Bytes) :
    List ReadEvent × Option (TCPSession × Bytes) :=
  match e.gate with
  | .clear => readFrame handlers e s stream
  | .released =>
    let r := readFrame handlers e s stream
    (.waitResume :: r.1, r.2)
  | .stuck => ([.waitResume], none)

theorem asyncRead_eq_some {n : Nat} {fails : Bool} {stream got rest : Bytes}
    (h : asyncRead n fails stream = some (got, rest)) :
    fails = false ∧ got.length = n ∧ stream = got ++ rest := by
  unfold asyncRead at h
  split at h
  · rename_i hok
    cases h
    refine ⟨hok.1, ?_, (List.take_append_drop n stream).symm⟩
    rw [List.length_take]
    omega
  · cases h

theorem readFrame_shorter {e : Surroundings Q A} {s s' : TCPSession} {stream rest : Bytes}
    (h : (readFrame handlers e s stream).2 = some (s', rest)) : rest.length < stream.length := by
  unfold readFrame at h
  split at h
  · cases h
  · rename_i header tail hread
    obtain ⟨_, hlen, rfl⟩ := asyncRead_eq_some hread
    have hsize : (header ++ tail).length = TCPHeaderConv.size + tail.length := by
      rw [List.length_append, hlen]
    unfold TCPHeaderConv.size at hsize
    simp only at h
    split at h
    · cases h
    · cases h
      omega
    · cases h
      omega
    · split at h
      · cases h
      · rename_i body rest' hbody
        obtain ⟨_, _, rfl⟩ := asyncRead_eq_some hbody
        have hlen : (body ++ rest').length = body.length + rest'.length := List.length_append
        rw [hlen] at hsize
        split at h
        · cases h
          omega
        · cases h

theorem readIteration_shorter {e : Surroundings Q A} {s s' : TCPSession} {stream rest : Bytes}
    (h : (readIteration handlers e s stream).2 = some (s', rest)) :
    rest.length < stream.length := by
  unfold readIteration at h
  split at h
  · exact readFrame_shorter handlers h
  · exact readFrame_shorter handlers h
  · cases h

/-- `ReadLoop` from its `i`-th iteration on. -/
def readLoop (env : Nat → Surroundings Q A) (i : Nat) (s : TCPSession) (stream : Bytes) :
    List ReadEvent :=
  match _h : (readIteration handlers (env i) s stream).2 with
  | none => (readIteration handlers (env i) s stream).1
  | some (s', rest) =>
    (readIteration handlers (env i) s stream).1 ++ readLoop env (i + 1) s' rest
termination_by stream.length
decreasing_by exact readIteration_shorter handlers _h

/-! ## One iteration against the grammar -/

/-- The frame an event processes. -/
def ReadEvent.frame? : ReadEvent → Option Frame
  | .sendPong a => some ⟨.ping, a.apiVersion, []⟩
  | .pong v => some ⟨.pong, v, []⟩
  | .handler i v body =>
    (TCPServiceType.ofCode? (UInt32.ofNat i.val)).map fun t => ⟨t, v, body⟩
  | .waitResume | .conn _ | .shutdown => none

/-- The frames that a list of events processes. -/
def processed (events : List ReadEvent) : List Frame := events.filterMap ReadEvent.frame?

/-- What processing a frame is, and whether the loop goes on after it. -/
def frameEvents (answer : Q → A) (f : Frame) : List ReadEvent × Bool :=
  match f.serviceType with
  | .ping => ([.sendPong ⟨.pong, none, f.apiVersion⟩], true)
  | .pong => ([.pong f.apiVersion], true)
  | .login => callHandler handlers answer TCPServiceType.login.index f.apiVersion f.body
  | .receiving => callHandler handlers answer TCPServiceType.receiving.index f.apiVersion f.body

/-- Nothing gets in the way of processing the frame: the wait ends, the reads succeed, and the
    handler does not throw. -/
structure Undisturbed (e : Surroundings Q A) (f : Frame) : Prop where
  gate : e.gate ≠ .stuck
  header : e.headerFails = false
  body : e.bodyFails = false
  returns : (frameEvents handlers e.answer f).2 = true

theorem frameEvents_body (answer : Q → A) {t : TCPServiceType} (v : UInt16) (body : Bytes)
    (ht : t = .login ∨ t = .receiving) :
    frameEvents handlers answer ⟨t, v, body⟩ = callHandler handlers answer t.index v body := by
  rcases ht with rfl | rfl <;> rfl

/-- **One iteration** stops with `Shutdown`, because no valid frame is there or a read fails; or
    processes the valid frame at the front of the stream. -/
theorem readFrame_cases (e : Surroundings Q A) (s : TCPSession) (stream : Bytes) :
    (readFrame handlers e s stream = ([.shutdown], none) ∧
      ∀ f rest, decodeFrame stream = some (f, rest) → ¬ Undisturbed handlers e f) ∨
    ∃ f rest s', decodeFrame stream = some (f, rest) ∧
      readFrame handlers e s stream = ((frameEvents handlers e.answer f).1,
        if (frameEvents handlers e.answer f).2 then some (s', rest) else none) := by
  unfold readFrame
  split
  · rename_i hread
    refine Or.inl ⟨rfl, fun f rest hf hu => ?_⟩
    unfold asyncRead at hread
    split at hread
    · cases hread
    · rename_i hno
      -- a stream with a valid frame has a header
      have hlong : TCPHeaderConv.size ≤ stream.length := by
        by_contra hlt
        rw [decodeFrame_short (Nat.not_le.mp hlt)] at hf
        cases hf
      exact hno ⟨hu.header, hlong⟩
  · rename_i header tail hread
    obtain ⟨_, hlen, rfl⟩ := asyncRead_eq_some hread
    have hdec := decodeFrame_onHeader s (TCPHeaderConv.ofBytes header) tail
    rw [TCPHeaderConv.bytes_ofBytes hlen] at hdec
    have hpeer := TCPSession.onHeader_peerApiVersion (h := TCPHeaderConv.ofBytes header) (s := s)
    simp only
    split
    · rename_i hact
      rw [hact] at hdec
      refine Or.inl ⟨rfl, fun f rest hf => ?_⟩
      rw [hdec] at hf
      cases hf
    · rename_i hact
      rw [hact] at hdec hpeer
      refine Or.inr ⟨_, _, (s.onHeader (TCPHeaderConv.ofBytes header)).1, hdec, ?_⟩
      simp only [frameEvents, TCPSession.sendPong, hpeer (by simp), if_true]
    · rename_i hact
      rw [hact] at hdec hpeer
      refine Or.inr ⟨_, _, (s.onHeader (TCPHeaderConv.ofBytes header)).1, hdec, ?_⟩
      simp only [frameEvents, hpeer (by simp), if_true]
    · rename_i t v n hact
      rw [hact] at hdec
      obtain ⟨_, _, _, ht, _⟩ := TCPSession.onHeader_readBody hact
      simp only at hdec
      split
      · rename_i hbody
        refine Or.inl ⟨rfl, fun f rest hf hu => ?_⟩
        unfold asyncRead at hbody
        split at hbody
        · cases hbody
        · rename_i hno
          rw [hdec] at hf
          split at hf
          · rename_i hle
            exact hno ⟨hu.body, hle⟩
          · cases hf
      · rename_i body rest hbody
        obtain ⟨_, hblen, rfl⟩ := asyncRead_eq_some hbody
        have hle : n ≤ (body ++ rest).length := by
          rw [List.length_append]
          omega
        rw [if_pos hle, ← hblen, List.take_left, List.drop_left] at hdec
        refine Or.inr ⟨_, _, (s.onHeader (TCPHeaderConv.ofBytes header)).1, hdec, ?_⟩
        rw [frameEvents_body handlers e.answer v body ht]

theorem processed_append (as bs : List ReadEvent) :
    processed (as ++ bs) = processed as ++ processed bs := List.filterMap_append

theorem processed_conn (calls : List ConnCall) : processed (calls.map .conn) = [] := by
  induction calls with
  | nil => rfl
  | cons c calls ih => exact ih

theorem processed_callHandler (answer : Q → A) (t : TCPServiceType) (v : UInt16) (body : Bytes) :
    processed (callHandler handlers answer t.index v body).1 = [⟨t, v, body⟩] := by
  have hframe : (ReadEvent.handler t.index v body).frame? = some ⟨t, v, body⟩ := by
    simp only [ReadEvent.frame?, t.ofCode?_index, Option.map_some]
  unfold callHandler
  simp only
  split
  · rw [processed, List.filterMap_cons, hframe]
    show _ :: processed _ = _
    rw [processed_conn]
  · rw [processed, List.filterMap_cons, hframe]
    show _ :: processed _ = _
    rw [processed_append, processed_conn]
    rfl

/-- Processing a valid frame processes that frame, once. -/
theorem processed_frameEvents (answer : Q → A) {f : Frame} (hv : f.Valid) :
    processed (frameEvents handlers answer f).1 = [f] := by
  obtain ⟨t, v, body⟩ := f
  have hsize := hv.bodySize
  cases t with
  | ping =>
    cases List.length_eq_zero_iff.mp hsize
    rfl
  | pong =>
    cases List.length_eq_zero_iff.mp hsize
    rfl
  | login => exact processed_callHandler handlers answer .login v body
  | receiving => exact processed_callHandler handlers answer .receiving v body

/-! ## The whole loop -/

theorem readLoop_of_none {env : Nat → Surroundings Q A} {i : Nat} {s : TCPSession}
    {stream : Bytes} (h : (readIteration handlers (env i) s stream).2 = none) :
    readLoop handlers env i s stream = (readIteration handlers (env i) s stream).1 := by
  rw [readLoop]
  split
  · rfl
  · rename_i h'
    rw [h] at h'
    cases h'

theorem readLoop_of_some {env : Nat → Surroundings Q A} {i : Nat} {s s' : TCPSession}
    {stream rest : Bytes} (h : (readIteration handlers (env i) s stream).2 = some (s', rest)) :
    readLoop handlers env i s stream =
      (readIteration handlers (env i) s stream).1 ++ readLoop handlers env (i + 1) s' rest := by
  rw [readLoop]
  split
  · rename_i h'
    rw [h] at h'
    cases h'
  · rename_i h'
    rw [h] at h'
    cases h'
    rfl

/-- An iteration behind its gate: it may process nothing, or it processes the frame at the front
    of the stream and nothing else. -/
theorem readIteration_cases (e : Surroundings Q A) (s : TCPSession) (stream : Bytes) :
    ((readIteration handlers e s stream).2 = none ∧
      processed (readIteration handlers e s stream).1 = [] ∧
      ∀ f rest, decodeFrame stream = some (f, rest) → ¬ Undisturbed handlers e f) ∨
    ∃ f rest s', decodeFrame stream = some (f, rest) ∧
      processed (readIteration handlers e s stream).1 = [f] ∧
      (readIteration handlers e s stream).2 =
        if (frameEvents handlers e.answer f).2 then some (s', rest) else none := by
  have hframe : ∀ {f : Frame} {rest : Bytes}, decodeFrame stream = some (f, rest) →
      processed (frameEvents handlers e.answer f).1 = [f] :=
    fun h => processed_frameEvents handlers e.answer (decodeFrame_sound _ _ _ h).1
  unfold readIteration
  split
  · rcases readFrame_cases handlers e s stream with ⟨hr, hno⟩ | ⟨f, rest, s', hd, hr⟩
    · rw [hr]
      exact Or.inl ⟨rfl, rfl, hno⟩
    · rw [hr]
      exact Or.inr ⟨f, rest, s', hd, hframe hd, rfl⟩
  · rcases readFrame_cases handlers e s stream with ⟨hr, hno⟩ | ⟨f, rest, s', hd, hr⟩
    · rw [hr]
      exact Or.inl ⟨rfl, rfl, hno⟩
    · rw [hr]
      exact Or.inr ⟨f, rest, s', hd, hframe hd, rfl⟩
  · rename_i hstuck
    exact Or.inl ⟨rfl, rfl, fun f rest _ hu => hu.gate hstuck⟩

theorem framesOf_of_some {stream rest : Bytes} {f : Frame}
    (h : decodeFrame stream = some (f, rest)) : framesOf stream = f :: framesOf rest := by
  rw [framesOf, Framing.decodeAll_of_some frameCode h]
  rfl

theorem framesOf_of_none {stream : Bytes} (h : decodeFrame stream = none) :
    framesOf stream = [] := by
  rw [framesOf, Framing.decodeAll_of_none frameCode h]

/-- The frames processed are the first ones of the stream. -/
theorem readLoop_processed (env : Nat → Surroundings Q A) (i : Nat) (s : TCPSession)
    (stream : Bytes) : processed (readLoop handlers env i s stream) <+: framesOf stream := by
  induction i, s, stream using readLoop.induct handlers env with
  | case1 i s stream h =>
    rw [readLoop_of_none handlers h]
    rcases readIteration_cases handlers (env i) s stream with
      ⟨_, hp, _⟩ | ⟨f, rest, s', hd, hp, _⟩
    · rw [hp]
      exact List.nil_prefix
    · rw [hp, framesOf_of_some hd]
      exact (List.prefix_cons_inj f).mpr List.nil_prefix
  | case2 i s stream s' rest h ih =>
    rw [readLoop_of_some handlers h, processed_append]
    rcases readIteration_cases handlers (env i) s stream with
      ⟨hn, _, _⟩ | ⟨f, rest', s'', hd, hp, hnext⟩
    · rw [hn] at h
      cases h
    · rw [hnext] at h
      split at h
      · cases h
        rw [hp, framesOf_of_some hd]
        exact (List.prefix_cons_inj f).mpr ih
      · cases h

/-- As long as nothing gets in the way, no frame is left out. -/
theorem readLoop_undisturbed (env : Nat → Surroundings Q A) (i : Nat) (s : TCPSession)
    (stream : Bytes) : ∀ k,
      (∀ j < k, ∀ f, (framesOf stream)[j]? = some f → Undisturbed handlers (env (i + j)) f) →
      (framesOf stream).take k <+: processed (readLoop handlers env i s stream) := by
  induction i, s, stream using readLoop.induct handlers env with
  | case1 i s stream h =>
    intro k hk
    rw [readLoop_of_none handlers h]
    cases hd : decodeFrame stream with
    | none =>
      rw [framesOf_of_none hd, List.take_nil]
      exact List.nil_prefix
    | some p =>
      obtain ⟨f, rest⟩ := p
      have hcons := framesOf_of_some hd
      cases k with
      | zero => exact List.nil_prefix
      | succ k =>
        have hu : Undisturbed handlers (env i) f :=
          hk 0 (Nat.succ_pos k) f (by rw [hcons]; rfl)
        rcases readIteration_cases handlers (env i) s stream with
          ⟨_, _, hno⟩ | ⟨f', rest', s', hd', _, hnext⟩
        · exact absurd hu (hno f rest hd)
        · -- an undisturbed iteration goes on
          rw [hd] at hd'
          cases hd'
          rw [h] at hnext
          rw [if_pos hu.returns] at hnext
          cases hnext
  | case2 i s stream s' rest h ih =>
    intro k hk
    rw [readLoop_of_some handlers h, processed_append]
    rcases readIteration_cases handlers (env i) s stream with
      ⟨hn, _, _⟩ | ⟨f, rest', s'', hd, hp, hnext⟩
    · rw [hn] at h
      cases h
    · rw [hnext] at h
      split at h
      · cases h
        have hcons := framesOf_of_some hd
        rw [hp]
        cases k with
        | zero => exact List.nil_prefix
        | succ k =>
          rw [hcons, List.take_succ_cons]
          refine (List.prefix_cons_inj f).mpr (ih k fun j hj g hg => ?_)
          have := hk (j + 1) (Nat.succ_lt_succ hj) g (by rw [hcons]; exact hg)
          rwa [← Nat.add_assoc, Nat.add_right_comm] at this
      · cases h

/-- A frame's own events end with `Shutdown` exactly when the loop does not go on. -/
theorem frameEvents_shutdown (answer : Q → A) (f : Frame) :
    ((frameEvents handlers answer f).2 = true ∧
      ReadEvent.shutdown ∉ (frameEvents handlers answer f).1) ∨
    ((frameEvents handlers answer f).2 = false ∧
      ∃ before, (frameEvents handlers answer f).1 = before ++ [.shutdown] ∧
        ReadEvent.shutdown ∉ before) := by
  have hcall : ∀ i v body,
      ((callHandler handlers answer i v body).2 = true ∧
        ReadEvent.shutdown ∉ (callHandler handlers answer i v body).1) ∨
      ((callHandler handlers answer i v body).2 = false ∧
        ∃ before, (callHandler handlers answer i v body).1 = before ++ [.shutdown] ∧
          ReadEvent.shutdown ∉ before) := by
    intro i v body
    unfold callHandler
    simp only
    split
    · exact Or.inl ⟨rfl, by simp⟩
    · refine Or.inr ⟨rfl, .handler i v body :: _, rfl, ?_⟩
      simp
  unfold frameEvents
  split
  · exact Or.inl ⟨rfl, by simp⟩
  · exact Or.inl ⟨rfl, by simp⟩
  · exact hcall _ _ _
  · exact hcall _ _ _

theorem readFrame_shutdown (e : Surroundings Q A) (s : TCPSession) (stream : Bytes) :
    ((readFrame handlers e s stream).2 ≠ none ∧
      ReadEvent.shutdown ∉ (readFrame handlers e s stream).1) ∨
    ((readFrame handlers e s stream).2 = none ∧
      ∃ before, (readFrame handlers e s stream).1 = before ++ [.shutdown] ∧
        ReadEvent.shutdown ∉ before) := by
  rcases readFrame_cases handlers e s stream with ⟨hr, _⟩ | ⟨f, rest, s', _, hr⟩
  · rw [hr]
    exact Or.inr ⟨rfl, [], rfl, by simp⟩
  · rw [hr]
    rcases frameEvents_shutdown handlers e.answer f with ⟨hgo, hno⟩ | ⟨hstop, hex⟩
    · exact Or.inl ⟨by simp [hgo], hno⟩
    · exact Or.inr ⟨by simp [hstop], hex⟩

theorem readIteration_shutdown {e : Surroundings Q A} (hgate : e.gate ≠ .stuck) (s : TCPSession)
    (stream : Bytes) :
    ((readIteration handlers e s stream).2 ≠ none ∧
      ReadEvent.shutdown ∉ (readIteration handlers e s stream).1) ∨
    ((readIteration handlers e s stream).2 = none ∧
      ∃ before, (readIteration handlers e s stream).1 = before ++ [.shutdown] ∧
        ReadEvent.shutdown ∉ before) := by
  unfold readIteration
  split
  · exact readFrame_shutdown handlers e s stream
  · rcases readFrame_shutdown handlers e s stream with ⟨hgo, hno⟩ | ⟨hstop, before, hb, hno⟩
    · exact Or.inl ⟨hgo, by simp [hno]⟩
    · exact Or.inr ⟨hstop, .waitResume :: before, by simp only [hb]; rfl, by simp [hno]⟩
  · rename_i hstuck
    exact absurd hstuck hgate

/-- A loop whose waits end calls `Shutdown` once, at its end. -/
theorem readLoop_shutdown (env : Nat → Surroundings Q A) (i : Nat) (s : TCPSession)
    (stream : Bytes) (hgate : ∀ j, (env j).gate ≠ .stuck) :
    ∃ before, readLoop handlers env i s stream = before ++ [.shutdown] ∧
      ReadEvent.shutdown ∉ before := by
  induction i, s, stream using readLoop.induct handlers env with
  | case1 i s stream h =>
    rw [readLoop_of_none handlers h]
    rcases readIteration_shutdown handlers (hgate i) s stream with ⟨hgo, _⟩ | ⟨_, hex⟩
    · exact absurd h hgo
    · exact hex
  | case2 i s stream s' rest h ih =>
    rw [readLoop_of_some handlers h]
    rcases readIteration_shutdown handlers (hgate i) s stream with ⟨_, hno⟩ | ⟨hstop, _⟩
    · obtain ⟨before, hb, hno'⟩ := ih
      refine ⟨(readIteration handlers (env i) s stream).1 ++ before, ?_, ?_⟩
      · rw [hb, List.append_assoc]
      · rw [List.mem_append, not_or]
        exact ⟨hno, hno'⟩
    · rw [hstop] at h
      cases h

theorem mem_handler_callHandler {answer : Q → A} {i j : Fin TCPServiceType.typeCnt}
    {v w : UInt16} {body body' : Bytes}
    (h : ReadEvent.handler j w body' ∈ (callHandler handlers answer i v body).1) : j = i := by
  unfold callHandler at h
  simp only at h
  split at h <;> simp at h <;> exact h.1

theorem mem_handler_frameEvents {answer : Q → A} {f : Frame} {i : Fin TCPServiceType.typeCnt}
    {v : UInt16} {body : Bytes}
    (h : ReadEvent.handler i v body ∈ (frameEvents handlers answer f).1) :
    i = TCPServiceType.login.index ∨ i = TCPServiceType.receiving.index := by
  unfold frameEvents at h
  split at h
  · simp at h
  · simp at h
  · exact Or.inl (mem_handler_callHandler handlers h)
  · exact Or.inr (mem_handler_callHandler handlers h)

/-- The loop calls no handler but those of `Login` and `Receiving`. -/
theorem readLoop_handlers (env : Nat → Surroundings Q A) (i : Nat) (s : TCPSession)
    (stream : Bytes) {n : Fin TCPServiceType.typeCnt} {v : UInt16} {body : Bytes}
    (h : ReadEvent.handler n v body ∈ readLoop handlers env i s stream) :
    n = TCPServiceType.login.index ∨ n = TCPServiceType.receiving.index := by
  have hframe : ∀ e s stream, ReadEvent.handler n v body ∈ (readFrame handlers e s stream).1 →
      n = TCPServiceType.login.index ∨ n = TCPServiceType.receiving.index := by
    intro e s stream h
    rcases readFrame_cases handlers e s stream with ⟨hr, _⟩ | ⟨f, rest, s', _, hr⟩
    · rw [hr] at h
      simp at h
    · rw [hr] at h
      exact mem_handler_frameEvents handlers h
  have hiter : ∀ e s stream,
      ReadEvent.handler n v body ∈ (readIteration handlers e s stream).1 →
      n = TCPServiceType.login.index ∨ n = TCPServiceType.receiving.index := by
    intro e s stream h
    unfold readIteration at h
    split at h
    · exact hframe e s stream h
    · simp only [List.mem_cons, reduceCtorEq, false_or] at h
      exact hframe e s stream h
    · simp at h
  induction i, s, stream using readLoop.induct handlers env with
  | case1 i s stream hn =>
    rw [readLoop_of_none handlers hn] at h
    exact hiter _ _ _ h
  | case2 i s stream s' rest hsome ih =>
    rw [readLoop_of_some handlers hsome, List.mem_append] at h
    rcases h with h | h
    · exact hiter _ _ _ h
    · exact ih h

/-! ## Result -/

/-- **ReadLoop decodes exactly the frame grammar.**  A stream has one decomposition into valid
    frames and a remainder.  The loop processes the frames of it in order, each with its own type,
    version and body, and nothing else; it leaves none out until something gets in the way; its
    handler calls are those of `Login` and `Receiving`; and unless a wait has no end it calls
    `Shutdown`, once, as the last thing.  Serialized lists of valid frames are decoded back to
    themselves, so no two of them are the same bytes. -/
theorem readLoop_decodes (env : Nat → Surroundings Q A) (s : TCPSession) (stream : Bytes) :
    Framing.Decomposes frameCode stream (framesOf stream) (remainderOf stream) ∧
    (∀ fs rest, Framing.Decomposes frameCode stream fs rest →
      fs = framesOf stream ∧ rest = remainderOf stream) ∧
    processed (readLoop handlers env 0 s stream) <+: framesOf stream ∧
    (∀ k, (∀ j < k, ∀ f, (framesOf stream)[j]? = some f → Undisturbed handlers (env j) f) →
      (framesOf stream).take k <+: processed (readLoop handlers env 0 s stream)) ∧
    ((∀ j f, (framesOf stream)[j]? = some f → Undisturbed handlers (env j) f) →
      processed (readLoop handlers env 0 s stream) = framesOf stream) ∧
    (∀ n v body, ReadEvent.handler n v body ∈ readLoop handlers env 0 s stream →
      n = TCPServiceType.login.index ∨ n = TCPServiceType.receiving.index) ∧
    ((∀ j, (env j).gate ≠ .stuck) →
      ∃ before, readLoop handlers env 0 s stream = before ++ [.shutdown] ∧
        ReadEvent.shutdown ∉ before) ∧
    (∀ fs : List Frame, (∀ f ∈ fs, f.Valid) → framesOf (fs.flatMap Frame.encode) = fs) ∧
    (∀ fs gs : List Frame, (∀ f ∈ fs, f.Valid) → (∀ g ∈ gs, g.Valid) →
      fs.flatMap Frame.encode = gs.flatMap Frame.encode → fs = gs) := by
  have hdec := Framing.decodeAll_decomposes frameCode stream
  have hpre := readLoop_processed handlers env 0 s stream
  have hall := readLoop_undisturbed handlers env 0 s stream
  simp only [Nat.zero_add] at hall
  refine ⟨hdec, fun fs rest h => Framing.decomposes_unique frameCode h hdec, hpre, hall, ?_,
    fun n v body h => readLoop_handlers handlers env 0 s stream h,
    readLoop_shutdown handlers env 0 s stream, ?_, ?_⟩
  · intro hu
    have htake := hall (framesOf stream).length fun j _ f hf => hu j f hf
    rw [List.take_length] at htake
    exact hpre.eq_of_length_le htake.length_le
  · intro fs hv
    have h := Framing.decodeAll_encodeAll frameCode hv []
    rw [List.append_nil] at h
    have hnil : Framing.decodeAll frameCode [] = ([], []) :=
      Framing.decodeAll_of_none frameCode (decodeFrame_short (by decide : ([] : Bytes).length < 10))
    rw [framesOf]
    show (Framing.decodeAll frameCode (Framing.encodeAll frameCode fs)).1 = fs
    rw [h, hnil, List.append_nil]
  · intro fs gs hv hv' h
    exact Framing.encodeAll_injective frameCode hv hv' h

end

end Zem
