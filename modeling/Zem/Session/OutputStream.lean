import Zem.Library.Outbox
import Zem.Session.Writer

/-!
# The output stream of a session

The bytes of the completed writes against the frames that `SendFrame` accepted.

* `StreamInv` — the completed writes carried the accepted frames but for those still queued, and
  the queue holds the rest, serialized.
* `Writer.history` — the write path seen as an in-order outbox of frames;
  `history_step`, `history_run` — every event is at most one step of that outbox.
* `stream_extends` — what is accepted and what is written only grows.
* `closed_run` — a closed session accepts no frame and starts no write.
* `output_stream` — the result for every run.
-/

set_option autoImplicit false

namespace Zem

/-- The number of accepted frames that the completed writes have carried. -/
def Writer.carried (w : Writer) : Nat := w.accepted.length - w.session.writeQueue.length

structure StreamInv (w : Writer) : Prop where
  le : w.session.writeQueue.length ≤ w.accepted.length
  queued : w.session.writeQueue.map WriteData.wire = (w.accepted.drop w.carried).map Frame.encode
  written : w.written = (w.accepted.take w.carried).flatMap Frame.encode
  fits : ∀ f ∈ w.accepted, f.body.length ≤ TCPSessionLimit.maxBodySize

/-- An item is on the wire what its frame is. -/
theorem wire_ofArgs (a : SendArgs) : (WriteData.ofArgs a).wire = a.frame.encode := by
  unfold WriteData.wire WriteData.ofArgs Frame.encode
  simp only
  congr 1
  split
  · rfl
  · rename_i h
    exact (List.length_eq_zero_iff.mp (Decidable.not_not.mp h)).symm

theorem streamInv_init : StreamInv .init := by
  refine ⟨Nat.le_refl _, rfl, rfl, fun f hf => ?_⟩
  cases hf

/-- A push moves the accepted frames and the queue by one frame each. -/
theorem StreamInv.push {w : Writer} (h : StreamInv w) {a : SendArgs} (raced : Bool)
    (hbody : a.bodySize ≤ TCPSessionLimit.maxBodySize) : StreamInv (w.afterPush a raced) := by
  have hle := h.le
  have hcarried : (w.afterPush a raced).carried = w.carried := by
    simp only [Writer.carried, Writer.afterPush, TCPSession.pushed, List.length_append,
      List.length_singleton]
    omega
  have hk : w.carried ≤ w.accepted.length := Nat.sub_le _ _
  refine ⟨?_, ?_, ?_, ?_⟩
  · simp only [Writer.afterPush, TCPSession.pushed, List.length_append, List.length_singleton]
    omega
  · rw [hcarried]
    simp only [Writer.afterPush, TCPSession.pushed, List.map_append, List.map_cons, List.map_nil,
      List.drop_append_of_le_length hk, h.queued, wire_ofArgs]
  · rw [hcarried]
    simp only [Writer.afterPush, List.take_append_of_le_length hk]
    exact h.written
  · intro f hf
    simp only [Writer.afterPush, List.mem_append, List.mem_singleton] at hf
    rcases hf with hf | rfl
    · exact h.fits f hf
    · exact hbody

/-- A completed write carries the frames of its batch, which were the next ones. -/
theorem StreamInv.pop {w : Writer} (h : StreamInv w) {b : Batch}
    (hb : b.CutFrom w.session.writeQueue) : StreamInv (w.afterPop b) := by
  have hle := h.le
  have hitems := hb.le
  have hqueue : (w.afterPop b).session.writeQueue = w.session.writeQueue.drop b.items := rfl
  have hcarried : (w.afterPop b).carried = w.carried + b.items := by
    rw [Writer.carried, hqueue, List.length_drop, Writer.carried]
    show w.accepted.length - _ = _
    omega
  -- the frames that the batch was made of
  have hbatch : (w.session.writeQueue.take b.items).map WriteData.wire =
      ((w.accepted.drop w.carried).take b.items).map Frame.encode := by
    rw [List.map_take, h.queued, List.map_take]
  refine ⟨?_, ?_, ?_, h.fits⟩
  · rw [hqueue, List.length_drop]
    exact Nat.le_trans (Nat.sub_le _ _) hle
  · rw [hcarried, hqueue, List.map_drop, h.queued, ← List.map_drop, List.drop_drop]
    rfl
  · have htake : w.accepted.take (w.carried + b.items) =
        w.accepted.take w.carried ++ (w.accepted.drop w.carried).take b.items := List.take_add
    rw [hcarried]
    show w.written ++ b.bufs.flatten = (w.accepted.take (w.carried + b.items)).flatMap _
    rw [htake, List.flatMap_append, h.written, hb.bufs,
      List.flatMap_def (l := w.session.writeQueue.take b.items), hbatch, ← List.flatMap_def]

theorem streamInv_step (w : Writer) (act : WriterAct) (w' : Writer)
    (h : WriterInv w ∧ StreamInv w) (hstep : w.step act = some w') :
    WriterInv w' ∧ StreamInv w' := by
  refine ⟨writerInv_step w act w' h.1 hstep, ?_⟩
  obtain ⟨hinv, hs⟩ := h
  cases act with
  | sendFrame a raced =>
    rcases Writer.sendFrame_step hinv.accounting.bounded hstep with
      ⟨_, rfl⟩ | ⟨_, p, _, _, _, rfl⟩ | ⟨_, hbody, _, ⟨_, rfl⟩ | ⟨_, _, rfl⟩⟩
    · exact hs
    · exact ⟨hs.le, hs.queued, hs.written, hs.fits⟩
    · exact hs.push raced hbody
    · have := hs.push raced hbody
      exact ⟨this.le, this.queued, this.written, this.fits⟩
  | writeDone b ec =>
    obtain ⟨hb, hcase⟩ := Writer.writeDone_step hstep
    obtain ⟨_, hcut⟩ := hinv.outstanding_eq hb
    have hpop := hs.pop hcut
    rcases hcase with ⟨_, rfl⟩ | ⟨_, _, rfl⟩ | ⟨_, _, _, rfl⟩
    · exact ⟨hs.le, hs.queued, hs.written, hs.fits⟩
    · exact ⟨hpop.le, hpop.queued, hpop.written, hpop.fits⟩
    · exact ⟨hpop.le, hpop.queued, hpop.written, hpop.fits⟩
  | shutdown =>
    rw [Writer.shutdown_step hstep]
    exact ⟨hs.le, hs.queued, hs.written, hs.fits⟩
  | setPeerApiVersion v =>
    rw [Writer.setPeerApiVersion_step hstep]
    exact ⟨hs.le, hs.queued, hs.written, hs.fits⟩

theorem streamInv_run {acts : List WriterAct} {w : Writer}
    (h : Runs.exec Writer.step .init acts = some w) : StreamInv w :=
  (Runs.exec_invariant streamInv_step ⟨writerInv_init, streamInv_init⟩ h).2

/-! ## The write path as an outbox -/

/-- The frames accepted and the number of them carried by the completed writes. -/
def Writer.history (w : Writer) : Outbox.History Frame :=
  { accepted := w.accepted
    delivered := w.carried
    le := Nat.sub_le _ _ }

theorem history_eq {w w' : Writer} (ha : w'.accepted = w.accepted)
    (hq : w'.session.writeQueue.length = w.session.writeQueue.length) :
    w'.history = w.history := by
  have hc : w'.carried = w.carried := by rw [Writer.carried, Writer.carried, ha, hq]
  simp only [Writer.history, ha, hc]

theorem history_push {w : Writer} (hle : w.session.writeQueue.length ≤ w.accepted.length)
    (a : SendArgs) (raced : Bool) :
    Outbox.step w.history (.accept a.frame) = some (w.afterPush a raced).history := by
  have hc : (w.afterPush a raced).carried = w.carried := by
    simp only [Writer.carried, Writer.afterPush, TCPSession.pushed, List.length_append,
      List.length_singleton]
    omega
  simp only [Outbox.step, Writer.history, hc]
  rfl

theorem history_pop {w : Writer} (hle : w.session.writeQueue.length ≤ w.accepted.length)
    {b : Batch} (hb : b.items ≤ w.session.writeQueue.length) :
    Outbox.step w.history (.deliver b.items) = some (w.afterPop b).history := by
  have hc : (w.afterPop b).carried = w.carried + b.items := by
    simp only [Writer.carried, Writer.afterPop, TCPSession.popped, List.length_drop]
    omega
  have hk : w.history.delivered + b.items ≤ w.history.accepted.length := by
    simp only [Writer.history, Writer.carried]
    omega
  simp only [Outbox.step, dif_pos hk]
  simp only [Writer.history, hc]
  rfl

/-- **Every event of the write path is at most one step of the outbox.** -/
theorem history_step (w : Writer) (act : WriterAct) (w' : Writer)
    (h : WriterInv w ∧ StreamInv w) (hstep : w.step act = some w') :
    Runs.Reaches Outbox.step w.history w'.history := by
  obtain ⟨hinv, hs⟩ := h
  have hsame : ∀ {v : Writer}, v.accepted = w.accepted →
      v.session.writeQueue.length = w.session.writeQueue.length →
      Runs.Reaches Outbox.step w.history v.history := by
    intro v ha hq
    rw [history_eq ha hq]
    exact .refl _
  cases act with
  | sendFrame a raced =>
    have hpush := Runs.Reaches.single (history_push hs.le a raced)
    rcases Writer.sendFrame_step hinv.accounting.bounded hstep with
      ⟨_, rfl⟩ | ⟨_, p, _, _, _, rfl⟩ | ⟨_, _, _, ⟨_, rfl⟩ | ⟨_, _, rfl⟩⟩
    · exact hsame rfl rfl
    · exact hsame rfl rfl
    · exact hpush
    · exact hpush
  | writeDone b ec =>
    obtain ⟨hb, hcase⟩ := Writer.writeDone_step hstep
    have hpop := Runs.Reaches.single (history_pop hs.le (hinv.outstanding_eq hb).2.le)
    rcases hcase with ⟨_, rfl⟩ | ⟨_, _, rfl⟩ | ⟨_, _, _, rfl⟩
    · exact hsame rfl rfl
    · exact hpop
    · exact hpop
  | shutdown =>
    rw [Writer.shutdown_step hstep]
    exact hsame rfl rfl
  | setPeerApiVersion v =>
    rw [Writer.setPeerApiVersion_step hstep]
    exact hsame rfl rfl

/-- **Refinement**: a run of the write path is a run of the outbox. -/
theorem history_run {acts : List WriterAct} {w w' : Writer} (hinv : WriterInv w ∧ StreamInv w)
    (h : Runs.exec Writer.step w acts = some w') :
    Runs.Reaches Outbox.step w.history w'.history :=
  Runs.exec_simulation streamInv_step history_step hinv h

/-- What has been accepted and what has been written stays; a run only appends to both. -/
theorem stream_extends {acts : List WriterAct} {w w' : Writer} (hinv : WriterInv w ∧ StreamInv w)
    (h : Runs.exec Writer.step w acts = some w') :
    w.accepted <+: w'.accepted ∧ w.written <+: w'.written := by
  have hinv' := Runs.exec_invariant streamInv_step hinv h
  obtain ⟨hacc, hout⟩ := Outbox.run_extends (history_run hinv h)
  refine ⟨hacc, ?_⟩
  rw [hinv.2.written, hinv'.2.written]
  exact hout.flatMap Frame.encode

/-! ## Task order and closing -/

/-- The frame a `SendFrame` task was posted with. -/
def WriterAct.frame? : WriterAct → Option Frame
  | .sendFrame a _ => some a.frame
  | .writeDone _ _ => none
  | .shutdown => none
  | .setPeerApiVersion _ => none

/-- The accepted frames are, in order, among those of the `SendFrame` tasks. -/
theorem accepted_sublist {acts : List WriterAct} : ∀ {w w' : Writer}, WriterInv w →
    Runs.exec Writer.step w acts = some w' →
    ∃ new, w'.accepted = w.accepted ++ new ∧ new.Sublist (acts.filterMap WriterAct.frame?) := by
  induction acts with
  | nil =>
    intro w w' _ h
    cases h
    exact ⟨[], by simp, by simp⟩
  | cons act acts ih =>
    intro w w' hinv h
    obtain ⟨u, hu, h⟩ := Runs.exec_cons_some h
    obtain ⟨new, hnew, hsub⟩ := ih (writerInv_step w act u hinv hu) h
    -- the first event adds its own frame or none
    have hfirst : ∃ one, u.accepted = w.accepted ++ one ∧ one.Sublist act.frame?.toList := by
      cases act with
      | sendFrame a raced =>
        rcases Writer.sendFrame_step hinv.accounting.bounded hu with
          ⟨_, rfl⟩ | ⟨_, p, _, _, _, rfl⟩ | ⟨_, _, _, ⟨_, rfl⟩ | ⟨_, _, rfl⟩⟩
        · exact ⟨[], by simp, by simp⟩
        · exact ⟨[], by simp, by simp⟩
        · exact ⟨[a.frame], rfl, List.Sublist.refl _⟩
        · exact ⟨[a.frame], rfl, List.Sublist.refl _⟩
      | writeDone b ec =>
        rcases (Writer.writeDone_step hu).2 with ⟨_, rfl⟩ | ⟨_, _, rfl⟩ | ⟨_, _, _, rfl⟩ <;>
          exact ⟨[], by simp [Writer.afterError, Writer.afterPop, Writer.setWriting,
            Writer.startWrite], by simp⟩
      | shutdown =>
        rw [Writer.shutdown_step hu]
        exact ⟨[], by simp, by simp⟩
      | setPeerApiVersion v =>
        rw [Writer.setPeerApiVersion_step hu]
        exact ⟨[], by simp, by simp⟩
    obtain ⟨one, hone, hsub'⟩ := hfirst
    refine ⟨one ++ new, by rw [hnew, hone, List.append_assoc], ?_⟩
    have : (act :: acts).filterMap WriterAct.frame? =
        act.frame?.toList ++ acts.filterMap WriterAct.frame? := by
      rw [List.filterMap_cons]
      cases act.frame? <;> rfl
    rw [this]
    exact hsub'.append hsub

/-- A closed session takes no frame and starts no write, whatever runs. -/
theorem closed_step (w : Writer) (act : WriterAct) (w' : Writer)
    (hc : w.session.isClosed = true) (hb : w.session.pendingBytes ≤ sizeMax)
    (hstep : w.step act = some w') :
    w'.session.isClosed = true ∧ w'.accepted = w.accepted ∧ w'.started = w.started := by
  cases act with
  | sendFrame a raced =>
    rcases Writer.sendFrame_step hb hstep with ⟨_, rfl⟩ | ⟨ho, _⟩ | ⟨ho, _⟩
    · exact ⟨hc, rfl, rfl⟩
    · rw [hc] at ho
      cases ho
    · rw [hc] at ho
      cases ho
  | writeDone b ec =>
    rcases (Writer.writeDone_step hstep).2 with ⟨_, rfl⟩ | ⟨_, _, rfl⟩ | ⟨_, ho, _⟩
    · exact ⟨rfl, rfl, rfl⟩
    · exact ⟨hc, rfl, rfl⟩
    · rw [hc] at ho
      cases ho
  | shutdown =>
    rw [Writer.shutdown_step hstep]
    exact ⟨rfl, rfl, rfl⟩
  | setPeerApiVersion v =>
    rw [Writer.setPeerApiVersion_step hstep]
    exact ⟨hc, rfl, rfl⟩

theorem closed_run {acts : List WriterAct} {w w' : Writer} (hinv : WriterInv w)
    (hc : w.session.isClosed = true) (h : Runs.exec Writer.step w acts = some w') :
    w'.accepted = w.accepted ∧ w'.started = w.started := by
  have hrun := Runs.exec_invariant
    (I := fun v : Writer => WriterInv v ∧ v.session.isClosed = true ∧
      v.accepted = w.accepted ∧ v.started = w.started)
    (fun v act v' hv hstep => by
      obtain ⟨hi, hcv, ha, hst⟩ := hv
      obtain ⟨hc', ha', hst'⟩ := closed_step v act v' hcv hi.accounting.bounded hstep
      exact ⟨writerInv_step v act v' hi hstep, hc', ha'.trans ha, hst'.trans hst⟩)
    ⟨hinv, hc, rfl, rfl⟩ h
  exact hrun.2.2

/-! ## Result -/

/-- **Exact in-order output stream.**  After every run the completed writes have carried a prefix
    of the serialized accepted frames, cut at a frame boundary, and the queue holds the rest; the
    accepted frames are in task order; each body has a size that the length field of its header
    holds in full; and once the session is closed no frame is accepted and no write is started. -/
theorem output_stream {acts : List WriterAct} {w : Writer}
    (h : Runs.exec Writer.step .init acts = some w) :
    (∃ k ≤ w.accepted.length, w.written = (w.accepted.take k).flatMap Frame.encode) ∧
    w.written <+: w.accepted.flatMap Frame.encode ∧
    w.written ++ w.session.writeQueue.flatMap WriteData.wire = w.accepted.flatMap Frame.encode ∧
    w.accepted.Sublist (acts.filterMap WriterAct.frame?) ∧
    (∀ f ∈ w.accepted, f.body.length ≤ TCPSessionLimit.maxBodySize ∧
      f.header.dataSize.toNat = f.body.length ∧
      f.encode = BigEndian.toBytes 4 f.serviceType.code.toNat ++
        BigEndian.toBytes 4 f.body.length ++ BigEndian.toBytes 2 f.apiVersion.toNat ++ f.body) ∧
    (w.session.isClosed = true → ∀ acts' w', Runs.exec Writer.step w acts' = some w' →
      w'.accepted = w.accepted ∧ w'.started = w.started) := by
  have hs := streamInv_run h
  have hinv := writerInv_run h
  have hall : w.written ++ w.session.writeQueue.flatMap WriteData.wire =
      w.accepted.flatMap Frame.encode := by
    rw [hs.written, List.flatMap_def (l := w.session.writeQueue), hs.queued,
      ← List.flatMap_def, ← List.flatMap_append, List.take_append_drop]
  have hpre : w.written <+: w.accepted.flatMap Frame.encode := by
    rw [hs.written]
    exact (Outbox.output_prefix w.history).flatMap _
  refine ⟨⟨w.carried, w.history.le, hs.written⟩, hpre, hall, ?_, ?_, ?_⟩
  · obtain ⟨new, hnew, hsub⟩ := accepted_sublist writerInv_init h
    rw [hnew]
    exact hsub
  · intro f hf
    have hfits := hs.fits f hf
    have hsize := Frame.header_dataSize hfits
    refine ⟨hfits, hsize, ?_⟩
    rw [Frame.encode, TCPHeaderConv.bytes, hsize]
    rfl
  · intro hc acts' w' h'
    exact closed_run hinv hc h'

/-- The rule at a run that writes one of two frames. -/
theorem output_stream_two_frames :
    ∃ w, Runs.exec Writer.step .init
        [.sendFrame ⟨.ping, none, 1⟩ false, .sendFrame ⟨.login, some [7], 1⟩ false,
          .writeDone (gather [.ofArgs ⟨.ping, none, 1⟩] .empty) false] = some w ∧
      w.accepted.length = 2 ∧ w.written <+: w.accepted.flatMap Frame.encode := by
  refine ⟨_, rfl, rfl, ?_⟩
  exact (output_stream (show Runs.exec Writer.step .init
    [.sendFrame ⟨.ping, none, 1⟩ false, .sendFrame ⟨.login, some [7], 1⟩ false,
      .writeDone (gather [.ofArgs ⟨.ping, none, 1⟩] .empty) false] = some _ from rfl)).2.1

end Zem
