import Zem.Session.OpenStep
import Zem.Session.ResumeRead

/-!
# Flow control of a client that does not read

`ReadLoop` tests `m_backpressure` at the top of its loop, before the `SendFrame` it has just posted
has run, and does not test it again after a wake-up.

* `Ledger`, `ledger` — what an observer of a run keeps: which tasks of the queue are pings of
  `Heartbeat`, and, since `m_backpressure` was set, how many of those pings were queued for writing
  and how many frames `ReadLoop` has begun to process.
* `ReadPos.slack` — the frames it may begin before it tests the flag; `oneFrame_step` — under
  backpressure the frames begun and the slack are one together, in any order of the tasks.
* `SendsWithin` — what is left of a handler sends so many frames of so many bytes.
* `Flow`, `flow_step` — the bytes pending, posted, and still to be sent by a frame in progress or by
  one more are bounded, for a strand in its order.
* `flow_control` — the result for every run.
-/

set_option autoImplicit false

namespace Zem

open TCPSessionLimit (highWater hardCap)

/-! ## Handlers that send one frame -/

/-- The frames a call sends. -/
def ConnCall.frames : ConnCall → Nat
  | .send _ => 1
  | .close => 0

/-- The frame is of at most `B` bytes in total. -/
def ConnCall.FitsIn (B : Nat) : ConnCall → Prop
  | .send a => (WriteData.ofArgs a).totalBytes ≤ B
  | .close => True

section

variable {Q A : Type} {B n : Nat} {c : Coroutine Q A ConnCall Unit}

/-- What is left of a handler sends at most `n` frames, each of at most `B` bytes. -/
structure SendsWithin (B n : Nat) (c : Coroutine Q A ConnCall Unit) : Prop where
  frames : c.Spends ConnCall.frames n
  sizes : c.Performs (ConnCall.FitsIn B)

theorem length_sentArgs : ∀ calls : List ConnCall,
    (sentArgs calls).length = (calls.map ConnCall.frames).sum
  | [] => rfl
  | .send a :: calls => by
    have ih := length_sentArgs calls
    simp only [sentArgs, List.filterMap_cons, List.length_cons, List.map_cons, List.sum_cons,
      ConnCall.frames] at ih ⊢
    omega
  | .close :: calls => by
    have ih := length_sentArgs calls
    simp only [sentArgs, List.filterMap_cons, List.map_cons, List.sum_cons,
      ConnCall.frames] at ih ⊢
    omega

theorem mem_sentArgs {calls : List ConnCall} {a : SendArgs} (h : a ∈ sentArgs calls) :
    .send a ∈ calls := by
  obtain ⟨call, hin, hsend⟩ := List.mem_filterMap.mp h
  cases call with
  | send b =>
    cases hsend
    exact hin
  | close => cases hsend

/-- A segment sends what it may, and the rest what is left of that. -/
theorem SendsWithin.segment (h : SendsWithin B n c) :
    (sentArgs c.segment.1).length ≤ n ∧
      (∀ a ∈ sentArgs c.segment.1, (WriteData.ofArgs a).totalBytes ≤ B) ∧
      ∀ q k, c.segment.2 = .suspended q k →
        ∀ x, SendsWithin B (n - (sentArgs c.segment.1).length) (k x) := by
  obtain ⟨hsum, hrest⟩ := h.frames.segment
  obtain ⟨hall, hsizes⟩ := h.sizes.segment
  rw [← length_sentArgs] at hsum hrest
  exact ⟨hsum, fun a ha => hall _ (mem_sentArgs ha), fun q k hk x =>
    ⟨hrest q k hk x, hsizes q k hk x⟩⟩

end

/-! ## Frames begun -/

namespace ReadPos

variable {Q A : Type}

/-- The frames that `ReadLoop` may begin to process before it tests `m_backpressure`. -/
def slack : ReadPos Q A → Nat
  | .headerRead _ | .bodyRead _ _ _ _ | .scheduled .woken | .scheduled (.header _)
  | .scheduled (.body _ _ _) => 1
  | .resumeWait | .handlerWait _ _ | .finished | .scheduled .start | .scheduled (.answered _) => 0

theorem slack_le_one (p : ReadPos Q A) : p.slack ≤ 1 := by
  unfold slack
  split <;> omega

/-- What the handler in progress may still send. -/
def MaySend (B n : Nat) : ReadPos Q A → Prop
  | .handlerWait _ k => ∀ x, SendsWithin B n (k x)
  | .scheduled (.answered rest) => SendsWithin B n rest
  | .headerRead _ | .bodyRead _ _ _ _ | .scheduled .woken | .scheduled (.header _)
  | .scheduled (.body _ _ _) | .resumeWait | .finished | .scheduled .start => True

end ReadPos

/-- The resumption has the header of a ping or a pong, or the body of another frame. -/
def Resumption.beginsFrame {Q A : Type} (session : TCPSession) : Resumption Q A → Bool
  | .header (some bytes) =>
    match (session.onHeader (TCPHeaderConv.ofBytes bytes)).2 with
    | .ping | .pong => true
    | .readBody _ _ _ | .reject => false
  | .body _ _ (some _) => true
  | .start | .woken | .header none | .body _ _ none | .answered _ => false

namespace Strand

variable {Q A : Type}

/-- The step has `ReadLoop` begin to process a frame: it answers a ping, passes over a pong, or
    calls a handler. -/
def beginsFrame (s : Strand Q A) (act : StrandAct) : Bool :=
  match act with
  | .run i _ _ =>
    match s.queue[i]?, s.readPos with
    | some .readLoop, .scheduled r => r.beginsFrame s.writer.session
    | _, _ => false
  | .readDone _ | .writeDone _ _ | .hbExpires | .answer | .send _ | .closeFlag | .closePost => false

/-! ## What is kept of a run -/

/-- `queue` is the queue, with a mark on the pings that `Heartbeat` has posted; `pings` are those
    queued for writing since `m_backpressure` was set, and `begun` the frames that `ReadLoop` has
    begun to process since. -/
structure Ledger where
  queue : List (Task × Bool)
  pings : Nat
  begun : Nat

/-- A count of what happens while a flag is up, the step that raises it included. -/
def since (before after : Bool) (n : Nat) (hit : Bool) : Nat :=
  if after then (if before then n else 0) + hit.toNat else 0

def isSendFrame : Task → Bool
  | .sendFrame _ => true
  | .writeDone _ _ | .cleanup | .readLoop | .heartbeat => false

def isHeartbeat : Task → Bool
  | .heartbeat => true
  | .sendFrame _ | .writeDone _ _ | .cleanup | .readLoop => false

namespace Ledger

/-- The task that the step runs. -/
def taken (l : Ledger) (act : StrandAct) : Option (Task × Bool) :=
  match act.taskIndex? with
  | some i => l.queue[i]?
  | none => none

/-- The tasks that it leaves. -/
def rest (l : Ledger) (act : StrandAct) : List (Task × Bool) :=
  match act.taskIndex? with
  | some i => l.queue.eraseIdx i
  | none => l.queue

/-- The step runs a task of `Heartbeat`, which posts nothing but pings and the cleanup. -/
def ranHeartbeat (l : Ledger) (act : StrandAct) : Bool :=
  match l.taken act with
  | some (task, _) => isHeartbeat task
  | none => false

/-- The step runs the `SendFrame` of a ping of `Heartbeat`. -/
def ranPing (l : Ledger) (act : StrandAct) : Bool :=
  match l.taken act with
  | some (task, mark) => isSendFrame task && mark
  | none => false

/-- The ledger after the step `act` from `s` to `t`. -/
def note (s : Strand Q A) (act : StrandAct) (t : Strand Q A) (l : Ledger) : Ledger :=
  { queue := l.rest act ++ (t.queue.drop (l.rest act).length).map fun task =>
      (task, l.ranHeartbeat act && isSendFrame task)
    pings := since s.backpressure t.backpressure l.pings
      (l.ranPing act && decide (s.writer.accepted.length < t.writer.accepted.length))
    begun := since s.backpressure t.backpressure l.begun (s.beginsFrame act) }

def init : Ledger := ⟨[(.readLoop, false), (.heartbeat, false)], 0, 0⟩

end Ledger

/-- The ledger of a run. -/
def ledger (handlers : Handlers Q A) (repo : Nat → Q → A) (input : Bytes)
    (acts : List StrandAct) : Ledger :=
  Runs.observe (step handlers repo) Ledger.note (Strand.init input) .init acts

/-! ## One frame -/

/-- Under backpressure the frames begun and those `ReadLoop` may begin are one at most. -/
def OneFrame (s : Strand Q A) (l : Ledger) : Prop :=
  s.isClosed = false → s.backpressure = true → l.begun + s.readPos.slack ≤ 1

theorem beginsFrame_event {s : Strand Q A} {act : StrandAct} (h : act.taskIndex? = none) :
    s.beginsFrame act = false := by
  cases act with
  | run i raced idle => cases h
  | _ => rfl

theorem beginsFrame_task {s : Strand Q A} {i : Nat} {task : Task}
    (h : s.queue[i]? = some task) (hne : task ≠ .readLoop) (raced : Bool) (idle : Nat) :
    s.beginsFrame (.run i raced idle) = false := by
  simp only [beginsFrame, h]
  split
  · rename_i htask _
    exact absurd (Option.some.inj htask) hne
  · rfl

theorem beginsFrame_readLoop {s : Strand Q A} {i : Nat} {r : Resumption Q A}
    (h : s.queue[i]? = some .readLoop) (hp : s.readPos = .scheduled r) (raced : Bool)
    (idle : Nat) : s.beginsFrame (.run i raced idle) = r.beginsFrame s.writer.session := by
  simp only [beginsFrame, h, hp]

/-- A handler is called with the body of a frame, and not again when it goes on. -/
theorem beginsFrame_handler {handlers : Handlers Q A} {session : TCPSession}
    {r : Resumption Q A} {c : Coroutine Q A ConnCall Unit}
    (h : resumedHandler handlers r = some c) :
    (r.beginsFrame session).toNat = (ReadPos.scheduled r).slack := by
  cases r with
  | start => cases h
  | woken => cases h
  | header bytes => cases h
  | body t v bytes =>
    cases bytes with
    | none => cases h
    | some bytes => rfl
  | answered rest => rfl

/-- **Under backpressure** `ReadLoop` uses its slack for the frame it begins. -/
theorem slack_goesOn {handlers : Handlers Q A} {session : TCPSession} {r : Resumption Q A}
    {args : List SendArgs} {p : Option (ReadPos Q A)} (h : GoesOn handlers session r args p) :
    (p.getD .resumeWait).slack + (r.beginsFrame session).toNat ≤ (ReadPos.scheduled r).slack := by
  cases h with
  | start => exact Nat.le_refl 0
  | woken live => exact Nat.le_refl 1
  | ping header pong =>
    simp only [Resumption.beginsFrame, header]
    exact Nat.le_refl 1
  | pong header =>
    simp only [Resumption.beginsFrame, header]
    exact Nat.le_refl 1
  | readBody header live =>
    simp only [Resumption.beginsFrame, header]
    exact Nat.le_refl 1
  | returned handler stop =>
    rw [beginsFrame_handler handler]
    exact Nat.le_of_eq (Nat.zero_add _)
  | asked handler stop =>
    rw [beginsFrame_handler handler]
    exact Nat.le_of_eq (Nat.zero_add _)

/-- A step in which `ReadLoop` begins no frame and gains no slack. -/
theorem oneFrame_of_idle {s t : Strand Q A} {act : StrandAct} {l : Ledger} (hl : OneFrame s l)
    (ho : s.isClosed = false) (hbegin : s.beginsFrame act = false)
    (hslack : s.backpressure = true → t.backpressure = true →
      t.readPos.slack ≤ s.readPos.slack) : OneFrame t (l.note s act t) := by
  intro _ hb
  have hle := t.readPos.slack_le_one
  simp only [Ledger.note, since, hb, hbegin, if_true, Bool.toNat_false]
  cases hs : s.backpressure with
  | false =>
    simp only [Bool.false_eq_true, if_false]
    omega
  | true =>
    have := hl ho hs
    have := hslack hs hb
    simp only [if_true]
    omega

theorem Completes.slack {p : ReadPos Q A} {r : Resumption Q A} (h : Completes p r) :
    (ReadPos.scheduled r).slack = p.slack := by
  cases h <;> rfl

/-- **A step**, in any order of the tasks. -/
theorem oneFrame_step {handlers : Handlers Q A} {repo : Nat → Q → A} {s t : Strand Q A}
    {act : StrandAct} {l : Ledger} (hinv : SessionInv s) (hl : OneFrame s l)
    (h : s.step handlers repo act = some t) : OneFrame t (l.note s act t) := by
  intro hopen
  have ho := open_of_reaches hinv.writer (writer_step handlers repo s act t hinv h) hopen
  cases openStep_of_step hinv h hopen with
  | pushed htask _ hp =>
    apply oneFrame_of_idle hl ho (beginsFrame_task htask (by simp) _ _) ?_ hopen
    intro _ _
    rw [hp]
  | written htask _ _ _ hflag =>
    apply oneFrame_of_idle hl ho (beginsFrame_task htask (by simp) _ _) ?_ hopen
    intro _ hb
    rw [(hflag hb).2]
  | @readLoop i _ _ r htask hp =>
    intro hb
    obtain ⟨args, p, hgo, hwent⟩ := resumeReadLoop_open (s := s.take i) hopen
    have hs : s.backpressure = true := hwent.same.backpressure.symm.trans hb
    have hslack := slack_goesOn hgo
    have hone := hl ho hs
    have hpos := hwent.pos
    rw [show (s.take i).backpressure = true from hs, if_pos rfl] at hpos
    rw [hp] at hone
    simp only [Ledger.note, since, hb, hs, if_true, beginsFrame_readLoop htask hp, hpos]
    simp only [take] at hslack
    omega
  | heartbeat htask _ _ hp =>
    apply oneFrame_of_idle hl ho (beginsFrame_task htask (by simp) _ _) ?_ hopen
    intro _ _
    rw [hp]
  | completed hevent hcomp _ hp =>
    apply oneFrame_of_idle hl ho (beginsFrame_event hevent) ?_ hopen
    intro _ _
    rw [hp, hcomp.slack]
  | posted hevent _ _ hp =>
    apply oneFrame_of_idle hl ho (beginsFrame_event hevent) ?_ hopen
    intro _ _
    rw [hp]

/-! ## Bytes -/

/-- A frame that a handler or `ReadLoop` has posted. -/
def isReply (x : Task × Bool) : Bool := isSendFrame x.1 && !x.2

/-- The frame of a task is as long as its sender allows. -/
def Fits (B : Nat) (x : Task × Bool) : Prop :=
  ∀ a, x.1 = .sendFrame a →
    (WriteData.ofArgs a).totalBytes ≤ if x.2 then TCPHeaderConv.size else B

/-- Every frame in the queue is as long as its sender allows, and no reply is behind a resumption
    of `ReadLoop`. -/
structure Marked (B : Nat) (q : List (Task × Bool)) : Prop where
  sizes : ∀ x ∈ q, Fits B x
  order : q.Pairwise fun x y => x.1 = .readLoop → isReply y = false

theorem Marked.tail {B : Nat} {x : Task × Bool} {q : List (Task × Bool)} (h : Marked B (x :: q)) :
    Marked B q :=
  ⟨fun y hy => h.sizes y (List.mem_cons_of_mem _ hy), h.order.of_cons⟩

/-- Tasks join the queue that are no replies. -/
theorem Marked.append_others {B : Nat} {q new : List (Task × Bool)} (h : Marked B q)
    (hsizes : ∀ x ∈ new, Fits B x) (hnew : ∀ x ∈ new, isReply x = false) :
    Marked B (q ++ new) := by
  refine ⟨?_, List.pairwise_append.mpr ⟨h.order, ?_, fun x _ y hy _ => hnew y hy⟩⟩
  · intro x hx
    rcases List.mem_append.mp hx with hx | hx
    · exact h.sizes x hx
    · exact hsizes x hx
  · apply List.pairwise_of_forall_mem_list
    intro _ _ y hy _
    exact hnew y hy

/-- Replies join the queue while `ReadLoop` runs. -/
theorem Marked.append_replies {B : Nat} {q new : List (Task × Bool)} (h : Marked B q)
    (hsizes : ∀ x ∈ new, Fits B x) (hq : ∀ x ∈ q, x.1 ≠ .readLoop)
    (hnew : ∀ x ∈ new, x.1 ≠ .readLoop) : Marked B (q ++ new) := by
  have hno : ∀ x ∈ q ++ new, x.1 ≠ .readLoop := by
    intro x hx
    rcases List.mem_append.mp hx with hx | hx
    · exact hq x hx
    · exact hnew x hx
  constructor
  · intro x hx
    rcases List.mem_append.mp hx with hx | hx
    · exact h.sizes x hx
    · exact hsizes x hx
  · apply List.pairwise_of_forall_mem_list
    intro x hx _ _ hr
    exact absurd hr (hno x hx)

/-- `HighWater`, two frames, and the pings of `Heartbeat`. -/
def limit (B pings : Nat) : Nat := highWater + 2 * B + TCPHeaderConv.size * pings

theorem limit_zero (B : Nat) : limit B 0 = highWater + 2 * B := rfl

theorem limit_succ (B pings : Nat) : limit B (pings + 1) = limit B pings + TCPHeaderConv.size :=
  rfl

/-- The replies posted and still to be sent by the handler in progress are one at most.  Under
    backpressure the bytes pending, and `B` for each of these and for the frame that `ReadLoop` may
    begin, stay within the limit. -/
structure Flow (B : Nat) (s : Strand Q A) (l : Ledger) : Prop where
  queue : l.queue.map Prod.fst = s.queue
  marked : Marked B l.queue
  budget : ∃ n, s.readPos.MaySend B n ∧ l.queue.countP isReply + n ≤ 1 ∧
    (s.backpressure = true →
      s.pendingBytes + B * (l.queue.countP isReply + n + s.readPos.slack) ≤ limit B l.pings)

/-- The queue of the ledger after a step that posts `new`. -/
theorem note_queue {s t : Strand Q A} {act : StrandAct} {l : Ledger} (new : List Task)
    (h : t.queue = (l.rest act).map Prod.fst ++ new) :
    (l.note s act t).queue =
      l.rest act ++ new.map fun task => (task, l.ranHeartbeat act && isSendFrame task) := by
  have hdrop : t.queue.drop (l.rest act).length = new := by
    rw [h]
    exact List.drop_left' (List.length_map _)
  simp only [Ledger.note, hdrop]

/-- The first task of the queue, with its mark. -/
theorem marked_first {s : Strand Q A} {l : Ledger} {task : Task}
    (hq : l.queue.map Prod.fst = s.queue) (h : s.queue[0]? = some task) :
    ∃ mark rest, l.queue = (task, mark) :: rest ∧ rest.map Prod.fst = s.queue.eraseIdx 0 := by
  rw [← hq] at h ⊢
  cases hl : l.queue with
  | nil =>
    rw [hl] at h
    cases h
  | cons x rest =>
    rw [hl] at h
    cases h
    exact ⟨x.2, rest, rfl, rfl⟩

section

variable {B : Nat} {s t : Strand Q A} {l : Ledger} {act : StrandAct}

theorem pings_note (hs : s.backpressure = true) (hb : t.backpressure = true)
    (hran : l.ranPing act = false) : (l.note s act t).pings = l.pings := by
  simp [Ledger.note, since, hs, hb, hran]

/-- A step that runs no `SendFrame` and no resumption of `ReadLoop`. -/
theorem flow_others (new : List Task) (hl : Flow B s l) (hmarked : Marked B (l.rest act))
    (hcount : (l.rest act).countP isReply = l.queue.countP isReply)
    (hq : t.queue = (l.rest act).map Prod.fst ++ new)
    (hnew : ∀ a, .sendFrame a ∈ new → l.ranHeartbeat act = true ∧
      (WriteData.ofArgs a).totalBytes = TCPHeaderConv.size)
    (hran : l.ranPing act = false)
    (hsend : ∀ n, s.readPos.MaySend B n → t.readPos.MaySend B n)
    (hup : t.backpressure = true → s.backpressure = true ∧ t.pendingBytes ≤ s.pendingBytes ∧
      t.readPos.slack ≤ s.readPos.slack) : Flow B t (l.note s act t) := by
  have hqueue := note_queue (s := s) new hq
  have hothers : ∀ x ∈ new.map (fun task => (task, l.ranHeartbeat act && isSendFrame task)),
      Fits B x ∧ isReply x = false := by
    intro x hx
    obtain ⟨task, htask, rfl⟩ := List.mem_map.mp hx
    cases task with
    | sendFrame a =>
      obtain ⟨hhb, hsize⟩ := hnew a htask
      constructor
      · intro a' ha'
        cases ha'
        simp [hhb, isSendFrame, hsize]
      · simp [isReply, isSendFrame, hhb]
    | writeDone b ec => exact ⟨(fun _ h => by cases h), rfl⟩
    | cleanup => exact ⟨(fun _ h => by cases h), rfl⟩
    | readLoop => exact ⟨(fun _ h => by cases h), rfl⟩
    | heartbeat => exact ⟨(fun _ h => by cases h), rfl⟩
  have hreply : (l.note s act t).queue.countP isReply = l.queue.countP isReply := by
    rw [hqueue, List.countP_append, hcount, Nat.add_eq_left, List.countP_eq_zero]
    intro x hx
    rw [(hothers x hx).2]
    exact Bool.false_ne_true
  refine ⟨?_, ?_, ?_⟩
  · rw [hqueue, List.map_append, List.map_map, hq]
    congr 1
    exact List.map_id' _
  · rw [hqueue]
    exact hmarked.append_others (fun x hx => (hothers x hx).1) fun x hx => (hothers x hx).2
  · obtain ⟨n, hn, hone, hbound⟩ := hl.budget
    rw [hreply]
    refine ⟨n, hsend n hn, hone, ?_⟩
    intro hb
    obtain ⟨hs, hpend, hslack⟩ := hup hb
    rw [pings_note hs hb hran]
    have hmul : B * (l.queue.countP isReply + n + t.readPos.slack) ≤
        B * (l.queue.countP isReply + n + s.readPos.slack) :=
      Nat.mul_le_mul_left B (Nat.add_le_add_left hslack _)
    have := hbound hs
    omega

/-- An event takes no task. -/
theorem rest_event (h : act.taskIndex? = none) :
    l.rest act = l.queue ∧ l.ranPing act = false ∧ l.ranHeartbeat act = false := by
  simp [Ledger.rest, Ledger.ranPing, Ledger.ranHeartbeat, Ledger.taken, h]

/-- The step runs the first task. -/
theorem rest_first {task : Task} {mark : Bool} {rest : List (Task × Bool)}
    (h : l.queue = (task, mark) :: rest) (raced : Bool) (idle : Nat) :
    l.rest (.run 0 raced idle) = rest ∧
      l.ranPing (.run 0 raced idle) = (isSendFrame task && mark) ∧
      l.ranHeartbeat (.run 0 raced idle) = isHeartbeat task := by
  simp [Ledger.rest, Ledger.ranPing, Ledger.ranHeartbeat, Ledger.taken, StrandAct.taskIndex?, h]

/-- An event posts a task that is no `SendFrame`. -/
theorem flow_event {task : Task} (hl : Flow B s l) (hevent : act.taskIndex? = none)
    (hq : t.queue = s.queue ++ [task]) (htask : ∀ a, task ≠ .sendFrame a)
    (hsend : ∀ n, s.readPos.MaySend B n → t.readPos.MaySend B n) (hsame : Unwritten s t)
    (hslack : t.readPos.slack ≤ s.readPos.slack) : Flow B t (l.note s act t) := by
  obtain ⟨hrest, hping, _⟩ := rest_event (l := l) hevent
  apply flow_others [task] hl ?_ ?_ ?_ ?_ hping hsend ?_
  · rw [hrest]
    exact hl.marked
  · rw [hrest]
  · rw [hrest, hl.queue]
    exact hq
  · intro a ha
    exact absurd (List.mem_singleton.mp ha).symm (htask a)
  · intro hb
    exact ⟨hsame.backpressure.symm.trans hb, Nat.le_of_eq hsame.pending, hslack⟩

/-- The step runs the first task, which is no `SendFrame` and no resumption of `ReadLoop`. -/
theorem flow_task {task : Task} {raced : Bool} {idle : Nat} {new : List Task} (hl : Flow B s l)
    (htask : s.queue[0]? = some task) (hnone : isSendFrame task = false)
    (hq : t.queue = s.queue.eraseIdx 0 ++ new)
    (hnew : ∀ a, .sendFrame a ∈ new → isHeartbeat task = true ∧
      (WriteData.ofArgs a).totalBytes = TCPHeaderConv.size)
    (hsend : ∀ n, s.readPos.MaySend B n → t.readPos.MaySend B n)
    (hup : t.backpressure = true → s.backpressure = true ∧ t.pendingBytes ≤ s.pendingBytes ∧
      t.readPos.slack ≤ s.readPos.slack) : Flow B t (l.note s (.run 0 raced idle) t) := by
  obtain ⟨mark, rest, hqueue, hfst⟩ := marked_first hl.queue htask
  obtain ⟨hrest, hping, hhb⟩ := rest_first hqueue raced idle
  have hmarked := hl.marked
  rw [hqueue] at hmarked
  apply flow_others new hl ?_ ?_ ?_ ?_ ?_ hsend hup
  · rw [hrest]
    exact hmarked.tail
  · rw [hrest, hqueue, List.countP_cons_of_neg]
    simp [isReply, hnone]
  · rw [hrest, hfst]
    exact hq
  · intro a ha
    rw [hhb]
    exact hnew a ha
  · rw [hping, hnone, Bool.false_and]

theorem le_highWater {s : TCPSession}
    (hhigh : s.pendingBytes > highWater → s.backpressure = true) (hb : s.backpressure = false) :
    s.pendingBytes ≤ highWater := by
  by_contra hgt
  rw [hhigh (Nat.lt_of_not_le hgt)] at hb
  cases hb

/-- What is pushed while `m_backpressure` is set, or sets it, is paid for: a ping by its count, a
    reply by the share that the budget has for it. -/
theorem limit_pushed {p total k pings : Nat} {before mark : Bool}
    (hsize : total ≤ if mark then TCPHeaderConv.size else B)
    (hup : before = true → p + B * ((if mark then 0 else 1) + k) ≤ limit B pings)
    (hlow : before = false → p ≤ highWater) (hk : (if mark then 0 else 1) + k ≤ 2) :
    p + total + B * k ≤ limit B (since before true pings mark) := by
  have hmul := Nat.mul_le_mul_left B hk
  rw [Nat.mul_add] at hup hmul
  cases mark with
  | true =>
    cases before with
    | true =>
      have := hup rfl
      rw [show since true true pings true = pings + 1 from rfl, limit_succ]
      simp only [if_true] at hsize this
      omega
    | false =>
      have := hlow rfl
      rw [show since false true pings true = 0 + 1 from rfl, limit_succ, limit_zero]
      simp only [if_true] at hsize hmul
      omega
  | false =>
    simp only [Bool.false_eq_true, if_false, Nat.mul_one] at hsize hup hmul
    cases before with
    | true =>
      have := hup rfl
      rw [show since true true pings false = pings from rfl]
      omega
    | false =>
      have := hlow rfl
      rw [show since false true pings false = 0 from rfl, limit_zero]
      omega

/-- A `SendFrame` pushes its item, a reply or a ping. -/
theorem flow_pushed {a : SendArgs} {raced : Bool} {idle : Nat} (hl : Flow B s l)
    (hhigh : s.pendingBytes > highWater → s.backpressure = true)
    (htask : s.queue[0]? = some (.sendFrame a)) (hq : t.queue = s.queue.eraseIdx 0)
    (hp : t.readPos = s.readPos)
    (hpend : t.pendingBytes = s.pendingBytes + (WriteData.ofArgs a).totalBytes)
    (hacc : t.writer.accepted = s.writer.accepted ++ [a.frame]) :
    Flow B t (l.note s (.run 0 raced idle) t) := by
  obtain ⟨mark, rest, hqueue, hfst⟩ := marked_first hl.queue htask
  obtain ⟨hrest, hping, _⟩ := rest_first hqueue raced idle
  have hmarked := hl.marked
  rw [hqueue] at hmarked
  have hnote : (l.note s (.run 0 raced idle) t).queue = rest := by
    rw [note_queue [] (by rw [hrest, hfst, hq, List.append_nil]), hrest, List.map_nil,
      List.append_nil]
  have hpings : (l.note s (.run 0 raced idle) t).pings =
      since s.backpressure t.backpressure l.pings mark := by
    simp [Ledger.note, hping, hacc, isSendFrame]
  have hcount : l.queue.countP isReply = (if mark then 0 else 1) + rest.countP isReply := by
    rw [hqueue, List.countP_cons, Nat.add_comm]
    cases mark <;> rfl
  obtain ⟨n, hn, hone, hbound⟩ := hl.budget
  refine ⟨by rw [hnote, hfst, hq], by rw [hnote]; exact hmarked.tail, n, by rw [hp]; exact hn, ?_⟩
  have hslack := s.readPos.slack_le_one
  rw [hnote, hp, hpings, hpend]
  rw [hcount] at hone hbound
  refine ⟨by omega, ?_⟩
  intro hb
  rw [hb]
  have hsize : (WriteData.ofArgs a).totalBytes ≤ if mark then TCPHeaderConv.size else B :=
    hmarked.sizes _ List.mem_cons_self a rfl
  apply limit_pushed hsize
  · intro hs
    have := hbound hs
    rwa [Nat.add_assoc, Nat.add_assoc, ← Nat.add_assoc (rest.countP isReply)] at this
  · exact le_highWater hhigh
  · omega

end

/-! ## What ReadLoop sends -/

section

variable {B : Nat} {handlers : Handlers Q A} {session : TCPSession} {r : Resumption Q A}

/-- The handler that a resumption runs sends what it may, which the slack of the position and the
    frame in progress allow for. -/
theorem handler_sends (hans : ∀ i v body, SendsWithin B 1 (handlers i v body))
    {c : Coroutine Q A ConnCall Unit} (hc : resumedHandler handlers r = some c) {n : Nat}
    (hn : (ReadPos.scheduled r).MaySend B n) (hone : n ≤ 1) :
    ∃ m, SendsWithin B m c ∧ m ≤ 1 ∧ m ≤ n + (ReadPos.scheduled r).slack := by
  cases r with
  | start => cases hc
  | woken => cases hc
  | header bytes => cases hc
  | body t v bytes =>
    cases bytes with
    | none => cases hc
    | some bytes =>
      cases hc
      exact ⟨1, hans _ _ _, Nat.le_refl 1, Nat.le_add_left 1 n⟩
  | answered rest =>
    cases hc
    exact ⟨n, hn, hone, Nat.le_refl n⟩

/-- **Between two waits** `ReadLoop` posts no more than the frame in progress and its slack allow
    for. -/
theorem sends_goesOn (hans : ∀ i v body, SendsWithin B 1 (handlers i v body))
    (hB : TCPHeaderConv.size ≤ B) {args : List SendArgs} {p : Option (ReadPos Q A)}
    (h : GoesOn handlers session r args p) {n : Nat} (hn : (ReadPos.scheduled r).MaySend B n)
    (hone : n ≤ 1) (top : ReadPos Q A) (htop : ∀ m, top.MaySend B m) :
    (∀ a ∈ args, (WriteData.ofArgs a).totalBytes ≤ B) ∧
      ∃ m, (p.getD top).MaySend B m ∧ args.length + m ≤ 1 ∧
        args.length + m + (p.getD .resumeWait).slack ≤ n + (ReadPos.scheduled r).slack := by
  cases h with
  | start => exact ⟨by simp, 0, htop 0, by decide, Nat.zero_le _⟩
  | woken live => exact ⟨by simp, 0, trivial, by decide, Nat.le_add_left 1 n⟩
  | ping header pong =>
    refine ⟨fun a ha => ?_, 0, htop 0, Nat.le_refl 1, Nat.le_add_left 1 n⟩
    rw [List.mem_singleton.mp ha, totalBytes_empty pong]
    exact hB
  | pong header => exact ⟨by simp, 0, htop 0, by decide, Nat.zero_le _⟩
  | readBody header live => exact ⟨by simp, 0, trivial, by decide, Nat.le_add_left 1 n⟩
  | @returned _ c handler stop =>
    obtain ⟨m, hm, hle, hslack⟩ := handler_sends hans handler hn hone
    obtain ⟨hlen, hsizes, _⟩ := hm.segment
    exact ⟨hsizes, 0, htop 0, by omega, Nat.le_trans hlen hslack⟩
  | @asked _ c q k handler stop =>
    obtain ⟨m, hm, hle, hslack⟩ := handler_sends hans handler hn hone
    obtain ⟨hlen, hsizes, hrest⟩ := hm.segment
    refine ⟨hsizes, _, hrest q k stop, by omega, ?_⟩
    show (sentArgs c.segment.1).length + (m - (sentArgs c.segment.1).length) + 0 ≤ _
    omega

/-- `ReadLoop` runs, with no reply in the queue. -/
theorem flow_readLoop {s t : Strand Q A} {l : Ledger} {raced : Bool} {idle : Nat}
    (hans : ∀ i v body, SendsWithin B 1 (handlers i v body)) (hB : TCPHeaderConv.size ≤ B)
    (hreader : s.queue.count .readLoop = 1) (hl : Flow B s l)
    (htask : s.queue[0]? = some .readLoop) (hp : s.readPos = .scheduled r)
    {args : List SendArgs} {p : Option (ReadPos Q A)}
    (hgo : GoesOn handlers s.writer.session r args p) (hwent : WentOn (s.take 0) t args p) :
    Flow B t (l.note s (.run 0 raced idle) t) := by
  obtain ⟨mark, rest, hqueue, hfst⟩ := marked_first hl.queue htask
  obtain ⟨hrest, hping, hhb⟩ := rest_first hqueue raced idle
  have hmarked := hl.marked
  rw [hqueue] at hmarked
  have hnone : ∀ x ∈ rest, x.1 ≠ .readLoop := by
    intro x hx hr
    have hcount := count_take htask .readLoop
    rw [hreader, if_pos rfl] at hcount
    have hin : .readLoop ∈ (s.take 0).queue := by
      rw [take, ← hfst, ← hr]
      exact List.mem_map_of_mem hx
    have := List.count_pos_iff.mpr hin
    omega
  have hzero : rest.countP isReply = 0 := by
    rw [List.countP_eq_zero]
    intro x hx
    rw [(List.pairwise_cons.mp hmarked.order).1 x hx rfl]
    exact Bool.false_ne_true
  have hnote : (l.note s (.run 0 raced idle) t).queue =
      rest ++ args.map fun a => (.sendFrame a, false) := by
    rw [note_queue (args.map .sendFrame) (by rw [hrest, hfst]; exact hwent.queue), hrest,
      hhb, List.map_map]
    rfl
  have hcount : (l.note s (.run 0 raced idle) t).queue.countP isReply = args.length := by
    rw [hnote, List.countP_append, hzero, Nat.zero_add, List.countP_map]
    exact List.countP_eq_length.mpr fun a _ => rfl
  obtain ⟨n, hn, hone, hbound⟩ := hl.budget
  rw [hqueue, List.countP_cons, hzero] at hone hbound
  rw [hp] at hn hbound
  obtain ⟨hsizes, m, hm, hlen, hslack⟩ := sends_goesOn hans hB hgo hn (by omega)
    (if (s.take 0).backpressure then .resumeWait else .headerRead (!(s.take 0).cleanedUp))
    (fun m => by split <;> trivial)
  have hpos := hwent.pos
  refine ⟨?_, ?_, m, by rw [hpos]; exact hm, by rw [hcount]; exact hlen, ?_⟩
  · rw [hnote, List.map_append, hfst, List.map_map]
    exact hwent.queue.symm
  · rw [hnote]
    apply hmarked.tail.append_replies ?_ hnone
    · intro x hx
      obtain ⟨a, _, rfl⟩ := List.mem_map.mp hx
      simp
    · intro x hx a ha
      obtain ⟨a', ha', rfl⟩ := List.mem_map.mp hx
      cases ha
      exact hsizes a ha'
  · intro hb
    have hs : s.backpressure = true := hwent.same.backpressure.symm.trans hb
    rw [show (s.take 0).backpressure = true from hs, if_pos rfl] at hpos
    rw [hcount, hpos, pings_note hs hb (by rw [hping]; rfl), hwent.same.pending]
    have hmul : B * (args.length + m + (p.getD .resumeWait).slack) ≤
        B * (n + (ReadPos.scheduled r).slack) := Nat.mul_le_mul_left B hslack
    have := hbound hs
    simp only [isReply, isSendFrame, Bool.false_and, Bool.false_eq_true, if_false,
      Nat.zero_add] at this
    exact Nat.le_trans (Nat.add_le_add_left hmul _) this

end

/-! ## Every step and every run -/

theorem Completes.maySend {B : Nat} {p : ReadPos Q A} {r : Resumption Q A} (h : Completes p r)
    {n : Nat} (hn : p.MaySend B n) : (ReadPos.scheduled r).MaySend B n := by
  cases h with
  | header live bytes => trivial
  | body t v n live bytes => trivial
  | answer q k a => exact hn a

/-- **A step** of a strand in its order, whose handlers send one frame of at most `B` bytes. -/
theorem flow_step {handlers : Handlers Q A} {repo : Nat → Q → A} {B : Nat} {s t : Strand Q A}
    {act : StrandAct} {l : Ledger} (hans : ∀ i v body, SendsWithin B 1 (handlers i v body))
    (hB : TCPHeaderConv.size ≤ B) (hinv : SessionInv s) (hl : s.isClosed = false → Flow B s l)
    (hact : InOrder act) (h : s.step handlers repo act = some t) (hopen : t.isClosed = false) :
    Flow B t (l.note s act t) := by
  have ho := open_of_reaches hinv.writer (writer_step handlers repo s act t hinv h) hopen
  have hl := hl ho
  cases openStep_of_step hinv h hopen with
  | pushed htask hq hp hpend _ hacc =>
    cases hact
    exact flow_pushed hl (hinv.writer.accounting.high ho) htask hq hp hpend hacc
  | written htask hq hwakes hpend hflag hpos =>
    cases hact
    apply flow_task hl htask rfl hq
    · intro a ha
      cases hwakes _ ha
    · intro n hn
      rcases hpos with hp | hp
      · rw [hp]
        exact hn
      · rw [hp]
        trivial
    · intro hb
      obtain ⟨hs, hp⟩ := hflag hb
      exact ⟨hs, hpend, by rw [hp]⟩
  | @readLoop i _ _ r htask hp =>
    cases hact
    obtain ⟨args, p, hgo, hwent⟩ := resumeReadLoop_open (s := s.take 0) hopen
    have hreader := hinv.reader
    rw [hp] at hreader
    exact flow_readLoop hans hB hreader hl htask hp hgo hwent
  | heartbeat htask hq hsize hp hsame =>
    cases hact
    apply flow_task hl htask rfl hq
    · intro a ha
      obtain ⟨a', ha', he⟩ := List.mem_map.mp ha
      cases he
      exact ⟨rfl, hsize a ha'⟩
    · intro n hn
      rw [hp]
      exact hn
    · intro hb
      exact ⟨hsame.backpressure.symm.trans hb, Nat.le_of_eq hsame.pending, by rw [hp]⟩
  | completed hevent hcomp hq hp hsame =>
    apply flow_event hl hevent hq (by simp) ?_ hsame ?_
    · intro n hn
      rw [hp]
      exact hcomp.maySend hn
    · rw [hp, hcomp.slack]
  | posted hevent hsends hq hp hsame =>
    apply flow_event hl hevent hq ?_ ?_ hsame (by rw [hp])
    · intro a ha
      rw [hsends a ha] at hact
      exact hact
    · intro n hn
      rw [hp]
      exact hn

end Strand

/-! ## The handlers of the server -/

theorem sendsWithin_ret {Q A : Type} (B n : Nat) :
    SendsWithin B n (.ret () : Coroutine Q A ConnCall Unit) :=
  ⟨trivial, trivial⟩

theorem totalBytes_loginResponse (apiVersion : UInt16) (result : LoginResult) :
    (WriteData.ofArgs (loginResponse apiVersion result)).totalBytes = TCPHeaderConv.size + 4 := by
  have hbody : (loginResponse apiVersion result).bodySize = 4 := by
    simp [SendArgs.bodySize, loginResponse]
  simp only [WriteData.ofArgs, hbody]
  decide

/-- **The handlers of `MakeSession`** send one frame of fourteen bytes at most. -/
theorem makeSession_sendsWithin (i : Fin TCPServiceType.typeCnt) (v : UInt16) (body : Bytes) :
    SendsWithin (TCPHeaderConv.size + 4) 1 (makeSessionHandlers i v body) := by
  unfold makeSessionHandlers
  split
  · cases hdec : LoginCodec.decodeRequest v body with
    | none =>
      have hret : loginTask v body = .ret () := by
        simp only [loginTask, loginHandler, hdec]
      rw [hret]
      exact sendsWithin_ret _ _
    | some dto =>
      rw [loginTask_some hdec]
      exact ⟨fun _ => ⟨Nat.le_refl 1, trivial⟩,
        fun _ => ⟨Nat.le_of_eq (totalBytes_loginResponse _ _), trivial⟩⟩
  · exact ⟨⟨Nat.zero_le 1, trivial⟩, trivial, trivial⟩

namespace Strand

variable {Q A : Type}

/-! ## Result -/

/-- The ledger of a run, and the state it ends in. -/
theorem ledger_invariant {handlers : Handlers Q A} {repo : Nat → Q → A} {input : Bytes}
    {acts : List StrandAct} {s : Strand Q A} {P : Strand Q A → Ledger → Prop}
    {G : StrandAct → Prop} (hinit : P (init input) .init) (hacts : ∀ act ∈ acts, G act)
    (hstep : ∀ s act t l, SessionInv s → P s l → G act → s.step handlers repo act = some t →
      P t (l.note s act t))
    (h : Runs.exec (step handlers repo) (init input) acts = some s) :
    P s (ledger handlers repo input acts) :=
  (Runs.observe_invariant (I := fun s l => SessionInv s ∧ P s l)
    (fun s act t l hs hact ht => ⟨sessionInv_step handlers repo s act t hs.1 ht,
      hstep s act t l hs.1 hs.2 hact ht⟩) ⟨sessionInv_init input, hinit⟩ hacts h).2

theorem flow_init (B : Nat) (input : Bytes) : Flow B (init input : Strand Q A) .init := by
  refine ⟨rfl, ⟨?_, ?_⟩, 0, trivial, by decide, fun h => by cases h⟩
  · intro x hx a ha
    rcases List.mem_cons.mp hx with rfl | hx
    · cases ha
    · rw [List.mem_singleton.mp hx] at ha
      cases ha
  · apply List.pairwise_of_forall_mem_list
    intro x _ y hy _
    rcases List.mem_cons.mp hy with rfl | hy
    · rfl
    · rw [List.mem_singleton.mp hy]
      rfl

/-- **Flow control.**  After every run that leaves the session open `ReadLoop` has begun one frame
    at most since `m_backpressure` was set.  If the strand has run its tasks in order, and nobody
    but `Heartbeat`, `ReadLoop` and handlers that send one frame of at most `B` bytes has sent,
    then `m_pending_bytes` exceeds `HighWater` by two such frames and the pings that `Heartbeat`
    has queued since at most. -/
theorem flow_control {handlers : Handlers Q A} {repo : Nat → Q → A} {input : Bytes}
    {acts : List StrandAct} {s : Strand Q A}
    (h : Runs.exec (step handlers repo) (init input) acts = some s) (hopen : s.isClosed = false) :
    (s.backpressure = true → (ledger handlers repo input acts).begun ≤ 1) ∧
    ∀ B, TCPHeaderConv.size ≤ B → highWater + 2 * B ≤ hardCap →
      (∀ i v body, SendsWithin B 1 (handlers i v body)) → (∀ act ∈ acts, InOrder act) →
      s.writer.session.pendingBytes ≤
        highWater + 2 * B + TCPHeaderConv.size * (ledger handlers repo input acts).pings := by
  constructor
  · intro hb
    have hone : OneFrame s (ledger handlers repo input acts) :=
      ledger_invariant (G := fun _ => True) (fun _ h => by cases h) (fun _ _ => trivial)
        (fun _ _ _ _ hinv hl _ ht => oneFrame_step hinv hl ht) h
    exact Nat.le_trans (Nat.le_add_right _ _) (hone hopen hb)
  · intro B hB _ hans hacts
    have hflow : s.isClosed = false → Flow B s (ledger handlers repo input acts) :=
      ledger_invariant (P := fun s l => s.isClosed = false → Flow B s l) (G := InOrder)
        (fun _ => flow_init B input) hacts
        (fun _ _ _ _ hinv hl hact ht => flow_step hans hB hinv hl hact ht) h
    obtain ⟨_, _, n, _, _, hbound⟩ := hflow hopen
    cases hb : s.backpressure with
    | true => exact Nat.le_trans (Nat.le_add_right _ _) (hbound hb)
    | false =>
      have hlow := le_highWater ((sessionInv_run h).writer.accounting.high hopen) hb
      omega

/-- Pings of a client that does not read, up to a backpressure. -/
theorem flooded_exec {k : Nat}
    (hle : TCPHeaderConv.size * (1 + k) ≤ highWater + TCPHeaderConv.size) :
    Runs.exec (step makeSessionHandlers rightPassword)
      (init (pingFrame ++ ((List.replicate k pingFrame).flatten ++ [])))
      (startBoth ++ (List.replicate (k + 1) answerPing).flatten) = some (answered (1 + k) []) := by
  rw [List.replicate_succ, List.flatten_cons, ← List.append_assoc startBoth]
  exact Runs.exec_trans (answered_one _) (answered_run [] k 1 hle)

/-- The rule at the pongs that raise the backpressure. -/
theorem flow_control_flooded :
    ∃ input acts s, Runs.exec (step makeSessionHandlers rightPassword) (init input) acts = some s ∧
      s.backpressure = true ∧
      (ledger makeSessionHandlers rightPassword input acts).begun ≤ 1 ∧
      s.writer.session.pendingBytes ≤ highWater + 2 * (TCPHeaderConv.size + 4) +
        TCPHeaderConv.size * (ledger makeSessionHandlers rightPassword input acts).pings := by
  have hrun := flooded_exec (k := highWater / TCPHeaderConv.size) (by decide)
  have hhigh : highWater < TCPHeaderConv.size * (1 + highWater / TCPHeaderConv.size) := by decide
  have hbp : (answered (1 + highWater / TCPHeaderConv.size) []).backpressure = true :=
    decide_eq_true hhigh
  obtain ⟨hone, hbytes⟩ := flow_control hrun rfl
  refine ⟨_, _, _, hrun, hbp, hone hbp, hbytes _ (by decide) (by decide) makeSession_sendsWithin
    fun act hact => lateReturnRun_inOrder _ act (List.mem_append_left _ hact)⟩

end Strand

end Zem
