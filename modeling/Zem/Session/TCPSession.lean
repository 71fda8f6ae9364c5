import Zem.Protocol.Frame

/-!
# TCPSession: the write path

Reference model of `SendFrame`, `Drain`, its completion handler and `Shutdown` of
`Session/TCPSession.cpp`.  The functions act on the members of the session and return the calls
they make to Asio; what Asio does with a call is left to the system that runs the session.

* `TCPSession` — the members; `std::size_t` members are natural numbers with the wrap of
  `sizeAdd` and `sizeSub`.
* `gather` — the loop of `Drain` that fills the buffer array; `gather_spec`.
* `shutdown`, `drain`, `sendFrame`, `writeDone` — with one theorem each that lists what a call
  can do (`drain_cases`, `sendFrame_cases`, `writeDone_cases`).
* `sendFrame_calls`, `writeDone_calls` — when they post the cleanup and lift the backpressure.

`m_is_closed` is the one member that other threads touch.  `SendFrame` loads it twice, and
`raced` says that another thread's `Shutdown` set it between the two loads; before the first
load and after the second it is a step of its own.
-/

set_option autoImplicit false

namespace Zem

/-! ## Members -/

/-- `struct WriteData`. -/
structure WriteData where
  header : Bytes
  body : Option Bytes
  totalBytes : Nat
  deriving DecidableEq, Repr

/-- The bytes of an item on the wire. -/
def WriteData.wire (it : WriteData) : Bytes := it.header ++ it.body.getD []

/-- `it->body && !it->body->empty()`. -/
def WriteData.hasBody (it : WriteData) : Bool :=
  match it.body with
  | some body => !body.isEmpty
  | none => false

/-- The members of `TCPSession` other than the timers, the handlers and the receive time. -/
structure TCPSession where
  isWriting : Bool
  writeQueue : List WriteData
  pendingBytes : Nat
  backpressure : Bool
  peerApiVersion : UInt16
  isClosed : Bool
  deriving DecidableEq, Repr

/-- The constructor. -/
def TCPSession.init : TCPSession :=
  { isWriting := false
    writeQueue := []
    pendingBytes := 0
    backpressure := false
    peerApiVersion := ApiVersion.latest
    isClosed := false }

/-- The locals of `Drain` that the completion handler captures or the write uses. -/
structure Batch where
  bufs : List Bytes
  usedIov : Nat
  items : Nat
  bytes : Nat
  deriving DecidableEq, Repr

def Batch.empty : Batch := ⟨[], 0, 0, 0⟩

/-- The calls of the session's functions to Asio. -/
inductive AsioCall where
  | asyncWrite (b : Batch)
  | cancelResumeRead
  | postCleanup
  deriving DecidableEq, Repr

/-! ## Functions -/

/-- The slots of the buffer array an item takes. -/
def WriteData.seqSize (it : WriteData) : Nat := if it.hasBody then 2 else 1

/-- The buffers of an item. -/
def WriteData.bufs (it : WriteData) : List Bytes :=
  if it.hasBody then [it.header, it.body.getD []] else [it.header]

/-- The gather loop stops: no limit applies to the first item. -/
def Batch.full (b : Batch) (it : WriteData) : Bool :=
  b.items != 0 && (decide (b.usedIov + it.seqSize > TCPSessionLimit.maxIovPerWrite) ||
    decide (b.bytes + it.totalBytes > TCPSessionLimit.maxBatchBytes))

/-- The body of the gather loop. -/
def Batch.add (b : Batch) (it : WriteData) : Batch :=
  { bufs := b.bufs ++ it.bufs
    usedIov := b.usedIov + it.seqSize
    items := b.items + 1
    bytes := b.bytes + it.totalBytes }

/-- The gather loop of `Drain`. -/
def gather : List WriteData → Batch → Batch
  | [], b => b
  | it :: rest, b => if b.full it then b else gather rest (b.add it)

/-- `body ? body->size() : 0`. -/
def SendArgs.bodySize (a : SendArgs) : Nat := (a.body.getD []).length

/-- The item `SendFrame` builds. -/
def WriteData.ofArgs (a : SendArgs) : WriteData :=
  { header := a.frame.header.bytes
    body := if a.bodySize ≠ 0 then a.body else none
    totalBytes := if a.bodySize ≠ 0 then sizeAdd TCPHeaderConv.size a.bodySize
      else TCPHeaderConv.size }

namespace TCPSession

/-- `Shutdown`. -/
def shutdown (s : TCPSession) : TCPSession × List AsioCall :=
  if s.isClosed then (s, []) else ({ s with isClosed := true }, [.postCleanup])

/-- `Drain`. -/
def drain (s : TCPSession) : TCPSession × List AsioCall :=
  if s.isClosed || s.writeQueue.isEmpty then ({ s with isWriting := false }, [])
  else (s, [.asyncWrite (gather s.writeQueue .empty)])

/-- The task that `SendFrame` posts. -/
def sendFrame (a : SendArgs) (raced : Bool) (s : TCPSession) : TCPSession × List AsioCall :=
  if s.isClosed then (s, [])
  else
    let s := if raced then { s with isClosed := true } else s
    let item := WriteData.ofArgs a
    if a.bodySize > TCPSessionLimit.maxBodySize ∨ sizeMax - s.pendingBytes < item.totalBytes then
      s.shutdown
    else
      let s := { s with pendingBytes := sizeAdd s.pendingBytes item.totalBytes }
      if s.pendingBytes > TCPSessionLimit.hardCap then s.shutdown
      else
        let s :=
          if !s.backpressure && decide (s.pendingBytes > TCPSessionLimit.highWater) then
            { s with backpressure := true }
          else s
        let s := { s with writeQueue := s.writeQueue ++ [item] }
        if !s.isWriting then drain { s with isWriting := true } else (s, [])

/-- The completion handler of `async_write`; `ec` says that the write failed. -/
def writeDone (b : Batch) (ec : Bool) (s : TCPSession) : TCPSession × List AsioCall :=
  if ec then shutdown { s with isWriting := false }
  else
    let s := { s with writeQueue := s.writeQueue.drop b.items }
    let s := { s with pendingBytes := sizeSub s.pendingBytes b.bytes }
    if s.backpressure && decide (s.pendingBytes ≤ TCPSessionLimit.lowWater) then
      let r := drain { s with backpressure := false }
      (r.1, .cancelResumeRead :: r.2)
    else s.drain

end TCPSession

/-! ## The gather loop -/

/-- `total_bytes` summed over a queue. -/
def totalOf (q : List WriteData) : Nat := (q.map WriteData.totalBytes).sum

@[simp] theorem totalOf_nil : totalOf [] = 0 := rfl

@[simp] theorem totalOf_cons (it : WriteData) (q : List WriteData) :
    totalOf (it :: q) = it.totalBytes + totalOf q := rfl

@[simp] theorem totalOf_append (p q : List WriteData) :
    totalOf (p ++ q) = totalOf p + totalOf q := by
  simp [totalOf]

theorem totalOf_take_add_drop (n : Nat) (q : List WriteData) :
    totalOf (q.take n) + totalOf (q.drop n) = totalOf q := by
  rw [← totalOf_append, List.take_append_drop]

theorem WriteData.flatten_bufs (it : WriteData) : it.bufs.flatten = it.wire := by
  obtain ⟨header, body, totalBytes⟩ := it
  cases body with
  | none => simp [bufs, hasBody, wire]
  | some body =>
    cases body with
    | nil => simp [bufs, hasBody, wire]
    | cons b body => simp [bufs, hasBody, wire]

@[simp] theorem Batch.add_items (b : Batch) (it : WriteData) : (b.add it).items = b.items + 1 := rfl

@[simp] theorem Batch.add_bytes (b : Batch) (it : WriteData) :
    (b.add it).bytes = b.bytes + it.totalBytes := rfl

@[simp] theorem Batch.add_bufs (b : Batch) (it : WriteData) : (b.add it).bufs = b.bufs ++ it.bufs :=
  rfl

/-- The loop, started from a batch `b`, adds a prefix of the queue to it, and a non-empty one if
    `b` has no item yet. -/
theorem gather_spec : ∀ (q : List WriteData) (b : Batch),
    ∃ k ≤ q.length, (gather q b).items = b.items + k ∧
      (gather q b).bytes = b.bytes + totalOf (q.take k) ∧
      (gather q b).bufs.flatten = b.bufs.flatten ++ (q.take k).flatMap WriteData.wire ∧
      (b.items = 0 → q ≠ [] → 1 ≤ k)
  | [], b => ⟨0, Nat.le_refl _, by simp [gather], by simp [gather], by simp [gather],
      fun _ h => absurd rfl h⟩
  | it :: rest, b => by
    rw [gather]
    split
    · rename_i hfull
      refine ⟨0, Nat.zero_le _, by simp, by simp, by simp, fun h => ?_⟩
      rw [Batch.full, h] at hfull
      cases hfull
    · obtain ⟨k, hk, hitems, hbytes, hbufs, _⟩ := gather_spec rest (b.add it)
      refine ⟨k + 1, Nat.succ_le_succ hk, ?_, ?_, ?_, fun _ _ => Nat.succ_le_succ (Nat.zero_le k)⟩
      · rw [hitems, Batch.add_items]
        omega
      · rw [hbytes, Batch.add_bytes, List.take_succ_cons, totalOf_cons]
        omega
      · rw [hbufs, Batch.add_bufs, List.flatten_append, it.flatten_bufs, List.take_succ_cons,
          List.flatMap_cons, List.append_assoc]

/-- The batch `b` is cut from the front of the queue `q`. -/
structure Batch.CutFrom (b : Batch) (q : List WriteData) : Prop where
  pos : 1 ≤ b.items
  le : b.items ≤ q.length
  bytes : b.bytes = totalOf (q.take b.items)
  bufs : b.bufs.flatten = (q.take b.items).flatMap WriteData.wire

theorem gather_cutFrom {q : List WriteData} (h : q ≠ []) : (gather q .empty).CutFrom q := by
  obtain ⟨k, hk, hitems, hbytes, hbufs, hpos⟩ := gather_spec q .empty
  simp only [Batch.empty, Nat.zero_add, List.flatten_nil, List.nil_append] at hitems hbytes hbufs
  rw [← hitems] at hbytes hbufs
  exact ⟨hitems ▸ hpos rfl h, hitems ▸ hk, hbytes, hbufs⟩

/-- A batch stays cut from the front while the queue grows behind it. -/
theorem Batch.CutFrom.append {b : Batch} {q : List WriteData} (h : b.CutFrom q)
    (r : List WriteData) : b.CutFrom (q ++ r) := by
  have htake : (q ++ r).take b.items = q.take b.items := List.take_append_of_le_length h.le
  exact ⟨h.pos, by rw [List.length_append]; exact Nat.le_add_right_of_le h.le,
    by rw [htake]; exact h.bytes, by rw [htake]; exact h.bufs⟩

/-! ## What each function can do -/

namespace TCPSession

theorem shutdown_open {s : TCPSession} (h : s.isClosed = false) :
    s.shutdown = ({ s with isClosed := true }, [.postCleanup]) := by
  simp [shutdown, h]

theorem shutdown_closed {s : TCPSession} (h : s.isClosed = true) : s.shutdown = (s, []) := by
  simp [shutdown, h]

/-- `Drain` stops writing, or starts a write of a batch from the front of the queue. -/
theorem drain_cases (s : TCPSession) :
    ((s.isClosed = true ∨ s.writeQueue = []) ∧ s.drain = ({ s with isWriting := false }, [])) ∨
    (s.isClosed = false ∧ s.writeQueue ≠ [] ∧
      s.drain = (s, [.asyncWrite (gather s.writeQueue .empty)])) := by
  unfold drain
  split
  · rename_i h
    rw [Bool.or_eq_true, List.isEmpty_iff] at h
    exact Or.inl ⟨h, rfl⟩
  · rename_i h
    rw [Bool.or_eq_true, List.isEmpty_iff, not_or, Bool.not_eq_true] at h
    exact Or.inr ⟨h.1, h.2, rfl⟩

/-- The members after `SendFrame` has pushed its item. -/
def pushed (a : SendArgs) (raced : Bool) (s : TCPSession) : TCPSession :=
  { s with
    pendingBytes := s.pendingBytes + (WriteData.ofArgs a).totalBytes
    backpressure := s.backpressure ||
      decide (s.pendingBytes + (WriteData.ofArgs a).totalBytes > TCPSessionLimit.highWater)
    writeQueue := s.writeQueue ++ [WriteData.ofArgs a]
    isClosed := raced }

/-- The calls of a `Shutdown` that another thread's `Shutdown` may have preceded. -/
def shutdownCalls (raced : Bool) : List AsioCall := if raced then [] else [.postCleanup]

/-- **`SendFrame`** finds the session closed; or closes it over an oversized body or a full
    queue; or pushes its item while a write is in flight, or else starts one, or else finds the
    session closed meanwhile. -/
theorem sendFrame_cases (a : SendArgs) (raced : Bool) {s : TCPSession}
    (hs : s.pendingBytes ≤ sizeMax) :
    (s.isClosed = true ∧ s.sendFrame a raced = (s, [])) ∨
    (s.isClosed = false ∧
      (a.bodySize > TCPSessionLimit.maxBodySize ∨
        s.pendingBytes + (WriteData.ofArgs a).totalBytes > sizeMax) ∧
      s.sendFrame a raced = ({ s with isClosed := true }, shutdownCalls raced)) ∨
    (s.isClosed = false ∧ a.bodySize ≤ TCPSessionLimit.maxBodySize ∧
      s.pendingBytes + (WriteData.ofArgs a).totalBytes ≤ sizeMax ∧
      s.pendingBytes + (WriteData.ofArgs a).totalBytes > TCPSessionLimit.hardCap ∧
      s.sendFrame a raced =
        ({ s with
            isClosed := true
            pendingBytes := s.pendingBytes + (WriteData.ofArgs a).totalBytes },
          shutdownCalls raced)) ∨
    (s.isClosed = false ∧ a.bodySize ≤ TCPSessionLimit.maxBodySize ∧
      s.pendingBytes + (WriteData.ofArgs a).totalBytes ≤ TCPSessionLimit.hardCap ∧
      ((s.isWriting = true ∧ s.sendFrame a raced = (s.pushed a raced, [])) ∨
        (s.isWriting = false ∧ raced = true ∧ s.sendFrame a raced = (s.pushed a raced, [])) ∨
        (s.isWriting = false ∧ raced = false ∧
          s.sendFrame a raced = ({ s.pushed a raced with isWriting := true },
            [.asyncWrite (gather (s.pushed a raced).writeQueue .empty)])))) := by
  obtain ⟨isWriting, writeQueue, pendingBytes, backpressure, peerApiVersion, isClosed⟩ := s
  simp only at hs
  cases isClosed with
  | true => exact Or.inl ⟨rfl, rfl⟩
  | false =>
    apply Or.inr
    have hguard : sizeMax - pendingBytes < (WriteData.ofArgs a).totalBytes ↔
        pendingBytes + (WriteData.ofArgs a).totalBytes > sizeMax := by omega
    by_cases hbig : a.bodySize > TCPSessionLimit.maxBodySize ∨
        pendingBytes + (WriteData.ofArgs a).totalBytes > sizeMax
    · refine Or.inl ⟨rfl, hbig, ?_⟩
      cases raced <;> simp [sendFrame, hguard, hbig, shutdown, shutdownCalls]
    · apply Or.inr
      obtain ⟨hbody, hsum⟩ := not_or.mp hbig
      rw [gt_iff_lt, Nat.not_lt] at hbody hsum
      have hadd := sizeAdd_eq hsum
      by_cases hcap : pendingBytes + (WriteData.ofArgs a).totalBytes > TCPSessionLimit.hardCap
      · refine Or.inl ⟨rfl, hbody, hsum, hcap, ?_⟩
        cases raced <;>
          simp [sendFrame, hguard, hbig, hadd, hcap, shutdown, shutdownCalls]
      · refine Or.inr ⟨rfl, hbody, Nat.not_lt.mp hcap, ?_⟩
        cases isWriting with
        | true =>
          refine Or.inl ⟨rfl, ?_⟩
          cases raced <;> cases backpressure <;>
            by_cases hhigh : pendingBytes + (WriteData.ofArgs a).totalBytes >
              TCPSessionLimit.highWater <;>
            simp [sendFrame, hguard, hbig, hadd, hcap, hhigh, pushed]
        | false =>
          apply Or.inr
          cases raced with
          | true =>
            refine Or.inl ⟨rfl, rfl, ?_⟩
            cases backpressure <;>
              by_cases hhigh : pendingBytes + (WriteData.ofArgs a).totalBytes >
                TCPSessionLimit.highWater <;>
              simp [sendFrame, hguard, hbig, hadd, hcap, hhigh, pushed, drain]
          | false =>
            refine Or.inr ⟨rfl, rfl, ?_⟩
            cases backpressure <;>
              by_cases hhigh : pendingBytes + (WriteData.ofArgs a).totalBytes >
                TCPSessionLimit.highWater <;>
              simp [sendFrame, hguard, hbig, hadd, hcap, hhigh, pushed, drain]

/-- The members after the completion handler has taken a written batch off the queue. -/
def popped (b : Batch) (s : TCPSession) : TCPSession :=
  { s with
    writeQueue := s.writeQueue.drop b.items
    pendingBytes := sizeSub s.pendingBytes b.bytes
    backpressure := s.backpressure &&
      !decide (sizeSub s.pendingBytes b.bytes ≤ TCPSessionLimit.lowWater) }

/-- The cancel of the completion handler that releases the backpressure. -/
def resumeCalls (b : Batch) (s : TCPSession) : List AsioCall :=
  if s.backpressure && decide (sizeSub s.pendingBytes b.bytes ≤ TCPSessionLimit.lowWater) then
    [.cancelResumeRead]
  else []

theorem writeDone_ok (b : Batch) (s : TCPSession) :
    s.writeDone b false = ((s.popped b).drain.1, s.resumeCalls b ++ (s.popped b).drain.2) := by
  unfold writeDone popped resumeCalls
  cases hb : s.backpressure with
  | false => simp
  | true =>
    by_cases hlow : sizeSub s.pendingBytes b.bytes ≤ TCPSessionLimit.lowWater
    · simp [hlow]
    · simp [hlow]

/-- **The completion handler** closes the session over a failed write; or takes the batch off the
    queue and stops writing, or starts the next write. -/
theorem writeDone_cases (b : Batch) (ec : Bool) (s : TCPSession) :
    (ec = true ∧ s.writeDone b ec =
      ({ s with isWriting := false, isClosed := true }, shutdownCalls s.isClosed)) ∨
    (ec = false ∧ (s.isClosed = true ∨ s.writeQueue.drop b.items = []) ∧
      s.writeDone b ec = ({ s.popped b with isWriting := false }, s.resumeCalls b)) ∨
    (ec = false ∧ s.isClosed = false ∧ s.writeQueue.drop b.items ≠ [] ∧
      s.writeDone b ec = (s.popped b,
        s.resumeCalls b ++ [.asyncWrite (gather (s.writeQueue.drop b.items) .empty)])) := by
  cases ec with
  | true =>
    refine Or.inl ⟨rfl, ?_⟩
    cases h : s.isClosed <;> simp [writeDone, shutdown, h, shutdownCalls]
  | false =>
    apply Or.inr
    rw [writeDone_ok]
    rcases drain_cases (s.popped b) with ⟨hstop, hd⟩ | ⟨hopen, hne, hd⟩
    · exact Or.inl ⟨rfl, hstop, by rw [hd, List.append_nil]⟩
    · exact Or.inr ⟨rfl, hopen, hne, by rw [hd]; rfl⟩

/-- `SendFrame` posts the cleanup exactly when it is the one to close the session, and lifts no
    backpressure. -/
theorem sendFrame_calls (a : SendArgs) (raced : Bool) {s : TCPSession}
    (hs : s.pendingBytes ≤ sizeMax) :
    (s.sendFrame a raced).2.count .postCleanup + s.isClosed.toNat + (raced && !s.isClosed).toNat =
        (s.sendFrame a raced).1.isClosed.toNat ∧
      (s.backpressure = true → (s.sendFrame a raced).1.backpressure = true) ∧
      AsioCall.cancelResumeRead ∉ (s.sendFrame a raced).2 := by
  rcases sendFrame_cases a raced hs with
    ⟨hc, hr⟩ | ⟨ho, _, hr⟩ | ⟨ho, _, _, _, hr⟩ |
    ⟨ho, _, _, ⟨_, hr⟩ | ⟨_, hraced, hr⟩ | ⟨_, hraced, hr⟩⟩
  · rw [hr, hc]
    simp
  · rw [hr, ho]
    cases raced <;> simp [shutdownCalls]
  · rw [hr, ho]
    cases raced <;> simp [shutdownCalls]
  · rw [hr, ho]
    cases raced <;> simp +contextual [pushed]
  · rw [hr, ho, hraced]
    simp +contextual [pushed]
  · rw [hr, ho, hraced]
    simp +contextual [pushed]

/-- The completion handler posts the cleanup exactly when it is the one to close the session, and
    cancels the wait of `ReadLoop` when it lifts the backpressure. -/
theorem writeDone_calls (b : Batch) (ec : Bool) (s : TCPSession) :
    (s.writeDone b ec).2.count .postCleanup + s.isClosed.toNat =
        (s.writeDone b ec).1.isClosed.toNat ∧
      (s.backpressure = true → (s.writeDone b ec).1.backpressure = true ∨
        AsioCall.cancelResumeRead ∈ (s.writeDone b ec).2) := by
  have hresume : (s.resumeCalls b).count .postCleanup = 0 := by
    unfold resumeCalls
    split <;> rfl
  have hlift : s.backpressure = true →
      (s.popped b).backpressure = true ∨ AsioCall.cancelResumeRead ∈ s.resumeCalls b := by
    intro hb
    by_cases hlow : sizeSub s.pendingBytes b.bytes ≤ TCPSessionLimit.lowWater
    · exact Or.inr (by simp [resumeCalls, hb, hlow])
    · exact Or.inl (by simp [popped, hb, hlow])
  rcases writeDone_cases b ec s with ⟨_, hr⟩ | ⟨_, _, hr⟩ | ⟨_, _, _, hr⟩
  · rw [hr]
    refine ⟨?_, Or.inl⟩
    cases s.isClosed <;> simp [shutdownCalls]
  · rw [hr]
    exact ⟨by simp only [hresume, Nat.zero_add]; rfl, hlift⟩
  · rw [hr]
    refine ⟨by rw [List.count_append, hresume]; simp [popped], fun hb => ?_⟩
    exact (hlift hb).imp_right (List.mem_append_left _)

end TCPSession

end Zem
