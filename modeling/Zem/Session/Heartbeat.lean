import Mathlib.Data.List.Basic
import Zem.Library.Runs

/-!
# Heartbeat: probes and idle disconnects

Reference model of `TCPSession::Heartbeat` and `Session/Common/Timeouts.hpp`.

* `heartbeatTop`, `heartbeatResume` — the coroutine between two of its waits.
* `HbState.step` — the coroutine in time.  Times are nanoseconds since `StartHandling`; a timer
  fires exactly at its expiry, and no event passes an expiry that is due.
* `HbInv`, `hbInv_step` — what the waits and the pings say about the last reception.
* `Blind` — the step that disconnects without a probe; `probed_step_iff`.
* `Probed`, `Probed.live_client` — a probe before every idle disconnect, and what it means to a
  client that answers.
* `heartbeat_probed_iff` — a run probes before every idle disconnect exactly when no step of it
  is blind.
-/

set_option autoImplicit false

namespace Zem

/-! ## Timeouts -/

namespace TCPSessionTimeout

def milliseconds (n : Nat) : Nat := n * 1000000
def seconds (n : Nat) : Nat := n * 1000000000

def interval : Nat := seconds 30
def softIdle : Nat := seconds 45
def hardIdle : Nat := seconds 75
def graceWait : Nat := seconds 10
/-- The upper bound of `m_hb_jitter`, in milliseconds. -/
def maxJitter : Nat := 500

end TCPSessionTimeout

open TCPSessionTimeout

/-! ## The coroutine -/

/-- The wait on `m_hb_timer` that the coroutine is in. -/
inductive HbWait where
  | interval
  | grace
  deriving DecidableEq, Repr

/-- What the coroutine calls. -/
inductive HbCall where
  | sendPing
  | shutdown
  deriving DecidableEq, Repr

/-- From the top of the loop to the first wait; `none` is the end of the coroutine. -/
def heartbeatTop (isClosed : Bool) : Option HbWait := if isClosed then none else some .interval

/-- From the end of a wait to the next one.  `aborted` is `operation_aborted`, and `idle` the time
    since `m_last_rx`. -/
def heartbeatResume (isClosed : Bool) (wait : HbWait) (aborted : Bool) (idle : Nat) :
    List HbCall × Option HbWait :=
  if aborted then ([], heartbeatTop isClosed)
  else
    match wait with
    | .interval =>
      if idle ≥ hardIdle then ([.shutdown], none)
      else if idle ≥ softIdle then ([.sendPing], some .grace)
      else ([], heartbeatTop isClosed)
    | .grace =>
      if idle ≥ hardIdle then ([.shutdown], none) else ([], heartbeatTop isClosed)

/-! ## The coroutine in time -/

/-- `m_hb_timer` while the coroutine waits on it. -/
structure HbTimer where
  wait : HbWait
  armed : Nat
  expiry : Nat
  deriving DecidableEq, Repr

inductive HbPhase where
  | start
  | waiting (timer : HbTimer)
  | finished
  deriving DecidableEq, Repr

/-- An event may happen at time `t`: a coroutine that can run does not let time pass. -/
def HbPhase.Allows (now t : Nat) : HbPhase → Prop
  | .start => t = now
  | .waiting timer => t ≤ timer.expiry
  | .finished => True

instance (now t : Nat) : (phase : HbPhase) → Decidable (phase.Allows now t)
  | .start => inferInstanceAs (Decidable (t = now))
  | .waiting timer => inferInstanceAs (Decidable (t ≤ timer.expiry))
  | .finished => inferInstanceAs (Decidable True)

/-- A `Shutdown` for idleness: its time, and `m_last_rx` then. -/
structure Disconnect where
  time : Nat
  lastRx : Nat
  deriving DecidableEq, Repr

structure HbState where
  now : Nat
  lastRx : Nat
  isClosed : Bool
  phase : HbPhase
  pings : List Nat
  disconnects : List Disconnect
  deriving DecidableEq, Repr

/-- The state that `StartHandling` leaves. -/
def HbState.init : HbState := ⟨0, 0, false, .start, [], []⟩

/-- Data is received; the coroutine runs, with a draw of the jitter for the next interval; another
    caller closes the session; the cleanup of the closed session cancels the timer. -/
inductive HbAct where
  | receive (t : Nat)
  | run (jitter : Nat)
  | close (t : Nat)
  | cancel (t : Nat)
  deriving DecidableEq, Repr

namespace HbState

/-- `expires_after` at time `t`. -/
def arm (t jitter : Nat) : HbWait → HbTimer
  | .interval => ⟨.interval, t, t + (interval + milliseconds jitter)⟩
  | .grace => ⟨.grace, t, t + graceWait⟩

def perform (s : HbState) : HbCall → HbState
  | .sendPing => { s with pings := s.pings ++ [s.now] }
  | .shutdown =>
    { s with isClosed := true, disconnects := s.disconnects ++ [⟨s.now, s.lastRx⟩] }

/-- The coroutine has run at time `t`. -/
def resumed (s : HbState) (t jitter : Nat) (r : List HbCall × Option HbWait) : HbState :=
  let s := r.1.foldl perform { s with now := t }
  match r.2 with
  | none => { s with phase := .finished }
  | some w => { s with phase := .waiting (arm t jitter w) }

/-- Time may pass from `now` to `t`. -/
def Passes (s : HbState) (t : Nat) : Prop := s.now ≤ t ∧ s.phase.Allows s.now t

instance (s : HbState) (t : Nat) : Decidable (s.Passes t) :=
  inferInstanceAs (Decidable (_ ∧ _))

def step (s : HbState) : HbAct → Option HbState
  | .receive t => if s.Passes t then some { s with now := t, lastRx := t } else none
  | .run jitter =>
    if jitter ≤ maxJitter then
      match s.phase with
      | .start => some (s.resumed s.now jitter ([], heartbeatTop s.isClosed))
      | .waiting timer =>
        some (s.resumed timer.expiry jitter
          (heartbeatResume s.isClosed timer.wait false (timer.expiry - s.lastRx)))
      | .finished => none
    else none
  | .close t => if s.Passes t then some { s with now := t, isClosed := true } else none
  | .cancel t =>
    if s.Passes t ∧ s.isClosed = true then
      match s.phase with
      | .waiting timer =>
        some (s.resumed t 0 (heartbeatResume s.isClosed timer.wait true (t - s.lastRx)))
      | .start | .finished => none
    else none

end HbState

/-! ## What the waits say -/

/-- What an armed timer says about the pings and the last reception. -/
structure TimerInv (s : HbState) (timer : HbTimer) : Prop where
  armed : timer.armed ≤ s.now
  due : s.now ≤ timer.expiry
  interval : timer.wait = .interval →
    timer.armed + interval ≤ timer.expiry ∧
    timer.expiry ≤ timer.armed + interval + milliseconds maxJitter ∧
    (∀ p ∈ s.pings, p + graceWait ≤ timer.armed) ∧
    (s.lastRx + softIdle ≤ timer.armed → ∃ p ∈ s.pings, s.lastRx < p)
  grace : timer.wait = .grace →
    timer.expiry = timer.armed + graceWait ∧ timer.armed ∈ s.pings ∧
      ∀ p ∈ s.pings, p ≤ timer.armed

structure HbInv (s : HbState) : Prop where
  rx : s.lastRx ≤ s.now
  pinged : ∀ p ∈ s.pings, p ≤ s.now
  spaced : ∀ p ∈ s.pings, s.lastRx < p → s.lastRx + softIdle ≤ p
  start : s.phase = .start → s.now = 0 ∧ s.pings = []
  timer : ∀ timer, s.phase = .waiting timer → TimerInv s timer

theorem hbInv_init : HbInv .init := by
  refine ⟨Nat.le_refl 0, fun p hp => ?_, fun p hp => ?_, fun _ => ⟨rfl, rfl⟩, fun timer h => ?_⟩
  · cases hp
  · cases hp
  · cases h

/-! ## One step -/

/-- Time passes, and the session may be closed meanwhile. -/
theorem HbInv.pass {s : HbState} (h : HbInv s) {t : Nat} (hp : s.Passes t) (isClosed : Bool) :
    HbInv { s with now := t, isClosed := isClosed } := by
  obtain ⟨hle, hlimit⟩ := hp
  refine ⟨Nat.le_trans h.rx hle, fun p hp => Nat.le_trans (h.pinged p hp) hle, h.spaced, ?_, ?_⟩
  · intro hph
    have hph : s.phase = .start := hph
    rw [hph] at hlimit
    have hlimit : t = s.now := hlimit
    exact ⟨hlimit.trans (h.start hph).1, (h.start hph).2⟩
  · intro timer hph
    have hph : s.phase = .waiting timer := hph
    have hti := h.timer timer hph
    rw [hph] at hlimit
    exact ⟨Nat.le_trans hti.armed hle, hlimit, hti.interval, hti.grace⟩

/-- A reception leaves no ping behind it. -/
theorem HbInv.receive {s : HbState} (h : HbInv s) : HbInv { s with lastRx := s.now } := by
  refine ⟨Nat.le_refl _, h.pinged, fun p hp hlt => ?_, h.start, fun timer hph => ?_⟩
  · exact absurd hlt (Nat.not_lt.mpr (h.pinged p hp))
  · have hti := h.timer timer hph
    refine ⟨hti.armed, hti.due, fun hw => ?_, hti.grace⟩
    obtain ⟨hlow, hhigh, hold, _⟩ := hti.interval hw
    refine ⟨hlow, hhigh, hold, fun hsoft => ?_⟩
    have hsoft : s.now + softIdle ≤ timer.armed := hsoft
    have harmed := hti.armed
    simp only [softIdle, seconds] at hsoft
    omega

/-- The coroutine ends. -/
theorem HbInv.finish {s : HbState} (h : HbInv s) {t : Nat} (ht : s.now ≤ t) (isClosed : Bool)
    (disconnects : List Disconnect) :
    HbInv { s with
      now := t, isClosed := isClosed, phase := .finished, disconnects := disconnects } := by
  refine ⟨Nat.le_trans h.rx ht, fun p hp => Nat.le_trans (h.pinged p hp) ht, h.spaced,
    fun h => ?_, fun timer h => ?_⟩
  · cases h
  · cases h

/-- The coroutine is back at the top of its loop at time `t`, and every ping is at least
    `GraceWait` old. -/
theorem HbInv.top {s : HbState} (h : HbInv s) {t jitter : Nat} (ht : s.now ≤ t)
    (hj : jitter ≤ maxJitter) (hold : ∀ p ∈ s.pings, p + graceWait ≤ t)
    (hsoft : s.lastRx + softIdle ≤ t → ∃ p ∈ s.pings, s.lastRx < p) :
    HbInv (s.resumed t jitter ([], heartbeatTop s.isClosed)) := by
  unfold HbState.resumed heartbeatTop
  simp only [List.foldl_nil]
  cases hc : s.isClosed with
  | true => exact h.finish ht true s.disconnects
  | false =>
    refine ⟨Nat.le_trans h.rx ht, fun p hp => Nat.le_trans (h.pinged p hp) ht, h.spaced,
      fun h => ?_, fun timer h => ?_⟩
    · cases h
    · cases h
      have hms : milliseconds jitter ≤ milliseconds maxJitter := Nat.mul_le_mul_right _ hj
      refine ⟨Nat.le_refl t, Nat.le_add_right _ _, fun _ => ⟨?_, ?_, hold, hsoft⟩, fun h => ?_⟩
      · simp only [HbState.arm]
        omega
      · simp only [HbState.arm]
        omega
      · cases h

/-- The coroutine sends a ping at time `t` and waits for the answer. -/
theorem HbInv.ping {s : HbState} (h : HbInv s) {t : Nat} (ht : s.now ≤ t) (jitter : Nat)
    (hidle : s.lastRx + softIdle ≤ t) :
    HbInv (s.resumed t jitter ([.sendPing], some .grace)) := by
  refine ⟨Nat.le_trans h.rx ht, fun p hp => ?_, fun p hp hlt => ?_, fun h => ?_, fun timer h' => ?_⟩
  · rcases List.mem_append.mp hp with hp | hp
    · exact Nat.le_trans (h.pinged p hp) ht
    · rw [List.mem_singleton.mp hp]
      exact Nat.le_refl t
  · rcases List.mem_append.mp hp with hp | hp
    · exact h.spaced p hp hlt
    · rw [List.mem_singleton.mp hp]
      exact hidle
  · cases h
  · cases h'
    refine ⟨Nat.le_refl t, Nat.le_add_right _ _, fun h => ?_, fun _ => ⟨rfl, ?_, fun p hp => ?_⟩⟩
    · cases h
    · exact List.mem_append_right _ (List.mem_singleton.mpr rfl)
    · rcases List.mem_append.mp hp with hp | hp
      · exact Nat.le_trans (h.pinged p hp) ht
      · rw [List.mem_singleton.mp hp]
        exact Nat.le_refl t

/-- **A wait that ends in time** leads to a disconnect, to a ping and its grace wait, or back to
    the top of the loop. -/
theorem heartbeatResume_cases (isClosed : Bool) (wait : HbWait) (idle : Nat) :
    (idle ≥ hardIdle ∧ heartbeatResume isClosed wait false idle = ([.shutdown], none)) ∨
    (wait = .interval ∧ softIdle ≤ idle ∧ idle < hardIdle ∧
      heartbeatResume isClosed wait false idle = ([.sendPing], some .grace)) ∨
    (idle < hardIdle ∧ (wait = .interval → idle < softIdle) ∧
      heartbeatResume isClosed wait false idle = ([], heartbeatTop isClosed)) := by
  by_cases hhard : idle ≥ hardIdle
  · cases wait <;> simp [heartbeatResume, hhard]
  · have hlt := Nat.not_le.mp hhard
    by_cases hsoft : idle ≥ softIdle
    · cases wait <;> simp [heartbeatResume, hhard, hsoft, hlt]
    · cases wait <;> simp [heartbeatResume, hhard, hsoft, hlt, Nat.not_le.mp hsoft]

/-- **Every event**: time passes, with a reception or a close; the coroutine starts; its timer
    fires; or a closed session cancels it. -/
theorem HbState.step_cases {s s' : HbState} {act : HbAct} (h : s.step act = some s') :
    (∃ t, act = .receive t ∧ s.Passes t ∧ s' = { s with now := t, lastRx := t }) ∨
    (∃ jitter ≤ maxJitter, act = .run jitter ∧ s.phase = .start ∧
      s' = s.resumed s.now jitter ([], heartbeatTop s.isClosed)) ∨
    (∃ jitter ≤ maxJitter, ∃ timer, act = .run jitter ∧ s.phase = .waiting timer ∧
      s' = s.resumed timer.expiry jitter
        (heartbeatResume s.isClosed timer.wait false (timer.expiry - s.lastRx))) ∨
    (∃ t, act = .close t ∧ s.Passes t ∧ s' = { s with now := t, isClosed := true }) ∨
    (∃ t, act = .cancel t ∧ s.Passes t ∧ s.isClosed = true ∧
      s' = { s with now := t, phase := .finished }) := by
  cases act with
  | receive t =>
    simp only [step] at h
    split at h
    · rename_i hp
      cases h
      exact Or.inl ⟨t, rfl, hp, rfl⟩
    · cases h
  | run jitter =>
    simp only [step] at h
    split at h
    · rename_i hj
      split at h
      · rename_i hph
        cases h
        exact Or.inr (Or.inl ⟨jitter, hj, rfl, hph, rfl⟩)
      · rename_i timer hph
        cases h
        exact Or.inr (Or.inr (Or.inl ⟨jitter, hj, timer, rfl, hph, rfl⟩))
      · cases h
    · cases h
  | close t =>
    simp only [step] at h
    split at h
    · rename_i hp
      cases h
      exact Or.inr (Or.inr (Or.inr (Or.inl ⟨t, rfl, hp, rfl⟩)))
    · cases h
  | cancel t =>
    simp only [step] at h
    split at h
    · rename_i hp
      split at h
      · cases h
        refine Or.inr (Or.inr (Or.inr (Or.inr ⟨t, rfl, hp.1, hp.2, ?_⟩)))
        simp [resumed, heartbeatResume, heartbeatTop, hp.2]
      · cases h
      · cases h
    · cases h

theorem hbInv_step (s : HbState) (act : HbAct) (s' : HbState) (h : HbInv s)
    (hstep : s.step act = some s') : HbInv s' := by
  rcases HbState.step_cases hstep with ⟨t, _, hp, rfl⟩ | ⟨jitter, hj, _, hph, rfl⟩ |
    ⟨jitter, hj, timer, _, hph, rfl⟩ | ⟨t, _, hp, rfl⟩ | ⟨t, _, hp, _, rfl⟩
  · exact (h.pass hp s.isClosed).receive
  · obtain ⟨hnow, hnone⟩ := h.start hph
    refine h.top (Nat.le_refl _) hj (fun p hp => ?_) fun hsoft => ?_
    · rw [hnone] at hp
      cases hp
    · rw [hnow] at hsoft
      simp only [softIdle, seconds] at hsoft
      omega
  · have hti := h.timer timer hph
    have hrx := h.rx
    have hdue := hti.due
    rcases heartbeatResume_cases s.isClosed timer.wait (timer.expiry - s.lastRx) with
      ⟨_, hr⟩ | ⟨_, hsoft, _, hr⟩ | ⟨hhard, hlow, hr⟩
    · rw [hr]
      exact h.finish hdue true _
    · rw [hr]
      exact h.ping hdue jitter (by omega)
    · rw [hr]
      cases hw : timer.wait with
      | interval =>
        obtain ⟨hge, _, hold, _⟩ := hti.interval hw
        refine h.top hdue hj (fun p hp => ?_) fun hsoft => ?_
        · have := hold p hp
          omega
        · have := hlow hw
          omega
      | grace =>
        obtain ⟨hexp, hmem, hlast⟩ := hti.grace hw
        refine h.top hdue hj (fun p hp => ?_) fun hsoft => ⟨timer.armed, hmem, ?_⟩
        · have := hlast p hp
          omega
        · simp only [softIdle, graceWait, seconds] at hsoft hexp
          omega
  · exact h.pass hp true
  · exact h.finish hp.1 s.isClosed s.disconnects

/-! ## Probes -/

/-- Every `Shutdown` for idleness follows a ping that was sent after the last reception, and at
    least `GraceWait` earlier. -/
def Probed (s : HbState) : Prop :=
  ∀ d ∈ s.disconnects, ∃ p ∈ s.pings, d.lastRx < p ∧ p + graceWait ≤ d.time

/-- An interval timer armed less than `SoftIdle` after the last reception fires `HardIdle` or
    later after it: the check before saw too little idle time for a ping, and this one sees
    enough for a disconnect. -/
def Blind (s : HbState) (act : HbAct) : Prop :=
  ∃ jitter timer, act = .run jitter ∧ s.phase = .waiting timer ∧ timer.wait = .interval ∧
    timer.armed < s.lastRx + softIdle ∧ s.lastRx + hardIdle ≤ timer.expiry

/-- A step that sends no ping and disconnects nobody does not matter. -/
theorem probed_congr {s s' : HbState} (hp : s'.pings = s.pings)
    (hd : s'.disconnects = s.disconnects) : Probed s' ↔ Probed s := by
  rw [Probed, Probed, hp, hd]

/-- The coroutine goes back to a wait without a call. -/
theorem probed_resumed (s : HbState) (t jitter : Nat) (w : Option HbWait) :
    Probed (s.resumed t jitter ([], w)) ↔ Probed s := by
  cases w with
  | none => exact probed_congr rfl rfl
  | some w => exact probed_congr rfl rfl

theorem probed_disconnect {s : HbState} (hs : Probed s) (t jitter : Nat) :
    Probed (s.resumed t jitter ([.shutdown], none)) ↔
      ∃ p ∈ s.pings, s.lastRx < p ∧ p + graceWait ≤ t := by
  constructor
  · intro h
    exact h ⟨t, s.lastRx⟩ (List.mem_append_right _ (List.mem_singleton.mpr rfl))
  · intro h d hd
    rcases List.mem_append.mp hd with hd | hd
    · exact hs d hd
    · rw [List.mem_singleton.mp hd]
      exact h

/-- **A step keeps the pings ahead of the disconnects exactly when it is not blind.** -/
theorem probed_step_iff (s : HbState) (act : HbAct) (s' : HbState) (h : HbInv s) (hs : Probed s)
    (hstep : s.step act = some s') : Probed s' ↔ ¬ Blind s act := by
  have hother : (∀ jitter timer, act = .run jitter → s.phase ≠ .waiting timer) →
      Probed s' → (Probed s' ↔ ¬ Blind s act) := by
    intro hno hp
    refine ⟨fun _ => ?_, fun _ => hp⟩
    rintro ⟨jitter, timer, hact, hph, _⟩
    exact hno jitter timer hact hph
  rcases HbState.step_cases hstep with ⟨t, rfl, _, rfl⟩ | ⟨jitter, _, rfl, hph, rfl⟩ |
    ⟨jitter, _, timer, rfl, hph, rfl⟩ | ⟨t, rfl, _, rfl⟩ | ⟨t, rfl, _, _, rfl⟩
  · exact hother (fun _ _ h => by cases h) hs
  · refine hother (fun _ timer _ h => ?_) ?_
    · rw [hph] at h
      cases h
    · exact (probed_resumed s s.now jitter _).mpr hs
  · have hti := h.timer timer hph
    have hrx := h.rx
    have hdue := hti.due
    have hblind : Blind s (.run jitter) ↔ timer.wait = .interval ∧
        timer.armed < s.lastRx + softIdle ∧ s.lastRx + hardIdle ≤ timer.expiry := by
      constructor
      · rintro ⟨_, timer', _, hph', hb⟩
        rw [hph] at hph'
        cases hph'
        exact hb
      · intro hb
        exact ⟨jitter, timer, rfl, hph, hb⟩
    rw [hblind]
    rcases heartbeatResume_cases s.isClosed timer.wait (timer.expiry - s.lastRx) with
      ⟨hhard, hr⟩ | ⟨_, _, hhard, hr⟩ | ⟨hhard, _, hr⟩
    · rw [hr, probed_disconnect hs]
      have hexp : s.lastRx + hardIdle ≤ timer.expiry := by
        simp only [hardIdle, seconds] at hhard ⊢
        omega
      cases hw : timer.wait with
      | interval =>
        obtain ⟨hge, _, hold, hsoft⟩ := hti.interval hw
        constructor
        · rintro ⟨p, hp, hlt, _⟩ ⟨_, harmed, _⟩
          have := h.spaced p hp hlt
          have := hold p hp
          omega
        · intro hno
          have harmed : s.lastRx + softIdle ≤ timer.armed := by
            by_contra hlt
            exact hno ⟨rfl, Nat.not_le.mp hlt, hexp⟩
          obtain ⟨p, hp, hlt⟩ := hsoft harmed
          refine ⟨p, hp, hlt, ?_⟩
          have := hold p hp
          omega
      | grace =>
        obtain ⟨hge, hmem, _⟩ := hti.grace hw
        refine ⟨fun _ hb => ?_, fun _ => ⟨timer.armed, hmem, ?_, ?_⟩⟩
        · cases hb.1
        · simp only [hardIdle, graceWait, seconds] at hexp hge
          omega
        · omega
    · rw [hr]
      refine ⟨fun _ hb => ?_, fun _ d hd => ?_⟩
      · simp only [hardIdle, seconds] at hhard hb
        omega
      · obtain ⟨p, hp, hd⟩ := hs d hd
        exact ⟨p, List.mem_append_left _ hp, hd⟩
    · rw [hr]
      refine ⟨fun _ hb => ?_, fun _ => (probed_resumed s _ jitter _).mpr hs⟩
      simp only [hardIdle, seconds] at hhard hb
      omega
  · exact hother (fun _ _ h => by cases h) hs
  · exact hother (fun _ _ h => by cases h) hs

/-- A client whose every ping is answered by the end of its grace wait is not disconnected. -/
theorem Probed.live_client {s : HbState} (h : Probed s)
    (hlive : ∀ d ∈ s.disconnects, ∀ p ∈ s.pings, p + graceWait ≤ d.time → p ≤ d.lastRx) :
    s.disconnects = [] := by
  apply List.eq_nil_iff_forall_not_mem.mpr
  intro d hd
  obtain ⟨p, hp, hlt, hgrace⟩ := h d hd
  have := hlive d hd p hp hgrace
  omega

/-! ## Result -/

/-- **No idle disconnect without a probe, exactly when no step is blind.**  For all receive times,
    jitters and closes. -/
theorem heartbeat_probed_iff {acts : List HbAct} {s : HbState}
    (h : Runs.exec HbState.step .init acts = some s) :
    Runs.Visits HbState.step Probed .init acts ↔
      Runs.Takes HbState.step (fun s act => ¬ Blind s act) .init acts :=
  Runs.visits_iff_takes hbInv_step probed_step_iff hbInv_init
    (fun d hd => by cases hd) h

/-- The rule at a client whose silence is noticed in time: a ping after 60 s, and no answer. -/
theorem heartbeat_probed_iff_silent_client :
    ∃ s, Runs.exec HbState.step .init [.run 0, .run 0, .run 0, .run 0, .run 0] = some s ∧
      s.pings = [seconds 60] ∧ s.disconnects = [⟨seconds 100, 0⟩] ∧
      (Runs.Visits HbState.step Probed .init [.run 0, .run 0, .run 0, .run 0, .run 0] ↔
        Runs.Takes HbState.step (fun s act => ¬ Blind s act) .init
          [.run 0, .run 0, .run 0, .run 0, .run 0]) :=
  ⟨_, rfl, rfl, rfl, heartbeat_probed_iff (show Runs.exec HbState.step .init
    [.run 0, .run 0, .run 0, .run 0, .run 0] = some _ from rfl)⟩

/-- A client that sends at 15.2 s is disconnected at 90.5 s, and nothing was ever asked of it: the
    checks at 30 s and 60 s find 14.8 s and 44.8 s of idle time, and the jitter of 500 ms puts the
    next one past `HardIdle`. -/
theorem heartbeat_disconnects_unprobed :
    ∃ s, Runs.exec HbState.step .init
        [.run 0, .receive (milliseconds 15200), .run 0, .run 500, .run 0] = some s ∧
      s.pings = [] ∧ s.disconnects = [⟨milliseconds 90500, milliseconds 15200⟩] ∧
      ¬ Probed s := by
  refine ⟨_, rfl, rfl, rfl, fun h => ?_⟩
  obtain ⟨p, hp, _⟩ := h ⟨milliseconds 90500, milliseconds 15200⟩ (by decide)
  cases hp

end Zem
