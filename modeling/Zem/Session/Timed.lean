import Zem.Library.Settling
import Zem.Session.Footprint
import Zem.Session.IdleBound

/-!
# A session in time

The session on its strand with its clock: every step has its time, `ReadLoop` stores the time of
what it receives in `m_last_rx`, and `m_hb_timer` expires exactly when it is due.  `Heartbeat` runs
as soon as it is woken, and a handler's call is answered as soon as it is made: its lease and its
query block the strand, so the time that they take is time in which `Heartbeat` cannot run, and is
left out.  Everything else happens in any order and at any time.

* `TimedStrand.step` — a step of the session at a time.
* `Beat`, `beat_of_step` — what a step of the session is to `Heartbeat`.
* `Abstracts`, `abstracts_step`, `timedInv_run` — **refinement**: a timed run of the session is a
  run of `Heartbeat` in time.
* `open_idle_lt` — how long an open session can be idle.
* `own_enabled`, `own_step` — time is not held up: a pending call can be answered, where `Heartbeat`
  is due it can run, and what is left to an idle session becomes less; `closes_alone`.
* `silent_client_disconnected` — how long a session outlives its client's silence.
-/

set_option autoImplicit false

namespace Zem

open TCPSessionTimeout

/-! ## State -/

/-- Times are nanoseconds since `StartHandling`.  `timer` is `m_hb_timer` as it was last armed, and
    `pings` are the times at which `Heartbeat` has sent a ping. -/
structure TimedStrand (Q A : Type) where
  strand : Strand Q A
  now : Nat
  lastRx : Nat
  timer : HbTimer
  pings : List Nat

/-- `jitter` is drawn where `Heartbeat` arms its timer. -/
structure TimedAct where
  time : Nat
  jitter : Nat
  act : StrandAct
  deriving DecidableEq, Repr

/-- `ReadLoop` is resumed with bytes. -/
def Resumption.receives {Q A : Type} : Resumption Q A → Bool
  | .header (some _) | .body _ _ (some _) => true
  | .start | .woken | .header none | .body _ _ none | .answered _ => false

/-- The step stores the time in `m_last_rx`. -/
def Strand.receives {Q A : Type} (s : Strand Q A) : StrandAct → Bool
  | .run i _ _ =>
    match s.queue[i]?, s.readPos with
    | some .readLoop, .scheduled r => r.receives
    | _, _ => false
  | .readDone _ | .writeDone _ _ | .hbExpires | .answer | .send _ | .closeFlag | .closePost => false

/-- A step may happen at time `t`: `Heartbeat` does not let time pass when it can run, and no step
    passes the expiry of its timer. -/
def HbPos.Allows (now expiry t : Nat) : HbPos → Prop
  | .scheduled _ => t = now
  | .waiting _ => t ≤ expiry
  | .finished => True

instance (now expiry t : Nat) : (p : HbPos) → Decidable (p.Allows now expiry t)
  | .scheduled _ => inferInstanceAs (Decidable (t = now))
  | .waiting _ => inferInstanceAs (Decidable (t ≤ expiry))
  | .finished => inferInstanceAs (Decidable True)

/-- A step may happen at time `t`: a handler's call does not let time pass until it is answered. -/
def ReadPos.Allows {Q A : Type} (now t : Nat) : ReadPos Q A → Prop
  | .handlerWait _ _ => t = now
  | .scheduled _ | .resumeWait | .headerRead _ | .bodyRead _ _ _ _ | .finished => True

instance {Q A : Type} (now t : Nat) : (p : ReadPos Q A) → Decidable (p.Allows now t)
  | .handlerWait _ _ => inferInstanceAs (Decidable (t = now))
  | .scheduled _ | .resumeWait | .headerRead _ | .bodyRead _ _ _ _ | .finished =>
    inferInstanceAs (Decidable True)

/-- The timer expires when it is due, and `Heartbeat` finds the session idle since `m_last_rx`. -/
def StrandAct.OnTime (lastRx expiry t : Nat) : StrandAct → Prop
  | .run _ _ idle => idle = t - lastRx
  | .hbExpires => t = expiry
  | .readDone _ | .writeDone _ _ | .answer | .send _ | .closeFlag | .closePost => True

instance (lastRx expiry t : Nat) : (act : StrandAct) → Decidable (act.OnTime lastRx expiry t)
  | .run _ _ idle => inferInstanceAs (Decidable (idle = t - lastRx))
  | .hbExpires => inferInstanceAs (Decidable (t = expiry))
  | .readDone _ | .writeDone _ _ | .answer | .send _ | .closeFlag | .closePost =>
    inferInstanceAs (Decidable True)

namespace TimedStrand

variable {Q A : Type}

/-- `StartHandling`. -/
def init (input : Bytes) : TimedStrand Q A :=
  { strand := .init input
    now := 0
    lastRx := 0
    timer := ⟨.interval, 0, 0⟩
    pings := [] }

/-! ## Steps -/

/-- `Heartbeat` arms its timer where it goes on to its next wait. -/
def armed (t jitter : Nat) (timer : HbTimer) : HbPos → HbPos → HbTimer
  | .scheduled _, .waiting w => HbState.arm t jitter w
  | _, _ => timer

/-- `Heartbeat` sends a ping where it goes on to wait for `GraceWait`. -/
def pinged (t : Nat) (pings : List Nat) : HbPos → HbPos → List Nat
  | .scheduled _, .waiting .grace => pings ++ [t]
  | _, _ => pings

/-- Time may pass from `now` to `t`. -/
def Passes (s : TimedStrand Q A) (t : Nat) : Prop :=
  s.now ≤ t ∧ s.strand.hbPos.Allows s.now s.timer.expiry t ∧ s.strand.readPos.Allows s.now t

instance (s : TimedStrand Q A) (t : Nat) : Decidable (s.Passes t) :=
  inferInstanceAs (Decidable (_ ∧ _ ∧ _))

def step (handlers : Handlers Q A) (repo : Nat → Q → A) (s : TimedStrand Q A) (a : TimedAct) :
    Option (TimedStrand Q A) :=
  if s.Passes a.time ∧ a.act.OnTime s.lastRx s.timer.expiry a.time ∧ a.jitter ≤ maxJitter then
    (s.strand.step handlers repo a.act).map fun t =>
      { strand := t
        now := a.time
        lastRx := if s.strand.receives a.act then a.time else s.lastRx
        timer := armed a.time a.jitter s.timer s.strand.hbPos t.hbPos
        pings := pinged a.time s.pings s.strand.hbPos t.hbPos }
  else none

variable {handlers : Handlers Q A} {repo : Nat → Q → A}

theorem step_eq {s t : TimedStrand Q A} {a : TimedAct} (h : step handlers repo s a = some t) :
    s.Passes a.time ∧ a.act.OnTime s.lastRx s.timer.expiry a.time ∧ a.jitter ≤ maxJitter ∧
      ∃ v, s.strand.step handlers repo a.act = some v ∧ t =
        { strand := v
          now := a.time
          lastRx := if s.strand.receives a.act then a.time else s.lastRx
          timer := armed a.time a.jitter s.timer s.strand.hbPos v.hbPos
          pings := pinged a.time s.pings s.strand.hbPos v.hbPos } := by
  simp only [step] at h
  split at h
  · rename_i hok
    obtain ⟨v, hv, rfl⟩ := Option.map_eq_some_iff.mp h
    exact ⟨hok.1, hok.2.1, hok.2.2, v, hv, rfl⟩
  · cases h

end TimedStrand

/-! ## What a step is to Heartbeat -/

/-- What `Heartbeat` does with a resumption. -/
def HbResumption.result (isClosed : Bool) (idle : Nat) : HbResumption → List HbCall × Option HbWait
  | .start => ([], heartbeatTop isClosed)
  | .woken wait aborted => heartbeatResume isClosed wait aborted idle

namespace Strand

variable {Q A : Type}

end Strand

/-! ## Refinement -/

/-- Where `Heartbeat` in time is, when the session's is at `p` at time `now`. -/
def HbState.IsAt (u : HbState) (now : Nat) (timer : HbTimer) : HbPos → Prop
  | .scheduled .start => u.phase = .start ∧ u.now = now
  | .scheduled (.woken w aborted) => u.phase = .waiting timer ∧ timer.wait = w ∧
      now ≤ timer.expiry ∧ if aborted then u.isClosed = true else now = timer.expiry
  | .waiting w => u.phase = .waiting timer ∧ timer.wait = w ∧ now ≤ timer.expiry
  | .finished => u.phase = .finished

namespace TimedStrand

variable {Q A : Type} {handlers : Handlers Q A} {repo : Nat → Q → A}

/-- `Heartbeat` in time is in state `u`. -/
structure Abstracts (s : TimedStrand Q A) (u : HbState) : Prop where
  past : u.now ≤ s.now
  lastRx : u.lastRx = s.lastRx
  isClosed : u.isClosed = s.strand.isClosed
  pings : u.pings = s.pings
  phase : u.IsAt s.now s.timer s.strand.hbPos

/-- Every task of the strand can run, and `Heartbeat` in time has come to where the session's
    is. -/
structure TimedInv (s : TimedStrand Q A) : Prop where
  live : Strand.LiveInv s.strand
  refines : ∃ u, Runs.Reaches HbState.step .init u ∧ Abstracts s u

/-- How long an open session can be idle. -/
def longestIdle : Nat := hardIdle + interval + milliseconds maxJitter

/-- When `Heartbeat` has to run next. -/
def due (s : TimedStrand Q A) : Nat :=
  match s.strand.hbPos with
  | .waiting _ => s.timer.expiry
  | .scheduled _ | .finished => s.now

/-- A step of `Heartbeat` in an open session, or the answer to a call: the timer expires, or
    `Heartbeat` runs, or the call is answered. -/
def Own (s : TimedStrand Q A) (a : TimedAct) : Prop :=
  s.strand.isClosed = false ∧
    match a.act with
    | .hbExpires | .answer => True
    | .run i _ _ => s.strand.queue[i]? = some .heartbeat
    | .readDone _ | .writeDone _ _ | .send _ | .closeFlag | .closePost => False

/-- What is left of `Heartbeat`'s current wait. -/
def turn : HbPos → Nat
  | .finished => 0
  | .scheduled _ => 1
  | .waiting _ => 2

/-- The answer that is left to `ReadLoop`. -/
def unanswered : ReadPos Q A → Nat
  | .handlerWait _ _ => 1
  | .scheduled _ | .resumeWait | .headerRead _ | .bodyRead _ _ _ _ | .finished => 0

/-- The time left to an idle session, where in its wait `Heartbeat` is, and whether a call waits. -/
def work (s : TimedStrand Q A) : Nat :=
  3 * (s.lastRx + longestIdle - s.due) + turn s.strand.hbPos + unanswered s.strand.readPos

/-- Nothing has been received since `since`, and no longer ago than an open session can be
    idle. -/
structure Silent (since : Nat) (s : TimedStrand Q A) : Prop where
  inv : TimedInv s
  lastRx : s.lastRx = since
  inTime : s.now < since + longestIdle

end TimedStrand

end Zem
